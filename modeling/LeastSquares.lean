import LeastSquares.QR.Buffers
import LeastSquares.Report.Session
import LeastSquares.Report.Debug
import LeastSquares.Models.Formula
import LeastSquares.Models.Script
import LeastSquares.Proofs.QR.Stacked
import LeastSquares.Proofs.Fit.Ending
import LeastSquares.Proofs.Double
import LeastSquares.Proofs.Fit.Requests
import LeastSquares.Proofs.Fit.Outcome
import LeastSquares.Proofs.Fit.Recording
import LeastSquares.Proofs.Fit.Caches
import LeastSquares.Proofs.Fit.Descent
import LeastSquares.Proofs.Fit.Limits
import LeastSquares.Proofs.Fit.Bounds
import LeastSquares.Proofs.Fit.Enclosure
import LeastSquares.Proofs.Damping.Bracket
import LeastSquares.Proofs.Fit.Stalling
import LeastSquares.Proofs.Fit.Failure
import LeastSquares.Proofs.Fit.Affine
import LeastSquares.Proofs.Fit.SessionTrace
import LeastSquares.Proofs.Fit.Survival
import LeastSquares.Proofs.Fit.Counting
import LeastSquares.Proofs.Fit.Splitting
import LeastSquares.Proofs.Fit.Interference
import LeastSquares.Proofs.QR.Singular
import LeastSquares.Proofs.QR.Refused
import LeastSquares.Proofs.Fit.Signs
import LeastSquares.Proofs.Fit.Quenching
import LeastSquares.Proofs.Fit.OtherUnits
import LeastSquares.Proofs.QR.Undamped
import LeastSquares.Proofs.Fit.Measuring
import LeastSquares.Proofs.Fit.Verdict
import LeastSquares.Proofs.Fit.Correlation
import LeastSquares.Proofs.Fit.Resting
import LeastSquares.Proofs.Fit.Frozen
import LeastSquares.Proofs.Damping.Dividing
import LeastSquares.Proofs.Fit.ConstantSensitivity
import LeastSquares.Proofs.QR.Inverting
import LeastSquares.Proofs.QR.Pivoting
import LeastSquares.Proofs.Fit.Setting
import LeastSquares.Proofs.MatrixEdits
import LeastSquares.Proofs.PivotOrder
import LeastSquares.Proofs.Report.Draining
