import LeastSquares.Report.Log
import LeastSquares.Report.Summary
import LeastSquares.Uncertainty.Correlation
import LeastSquares.Json.Records
import LeastSquares.Spot.Image
import LeastSquares.Spot.Synthetic
import LeastSquares.Problem.Formula
import LeastSquares.Problem.Interruption
import LeastSquares.Proofs.Isolation
import LeastSquares.Proofs.Storage
import LeastSquares.Proofs.Sequencing
import LeastSquares.Proofs.Rounds
import LeastSquares.Proofs.Steering
import LeastSquares.Proofs.Codes
import LeastSquares.Proofs.Factorization
import LeastSquares.Proofs.Pivots
import LeastSquares.Proofs.Stationary
import LeastSquares.Proofs.Restart
import LeastSquares.Proofs.Exact.Descent
import LeastSquares.Proofs.Exact.Pivoting
import LeastSquares.Proofs.Exact.Rotation
import LeastSquares.Proofs.Exact.Confinement
import LeastSquares.Proofs.Carrying
import LeastSquares.Proofs.Exact.Orthogonality
import LeastSquares.Proofs.Exact.Cosines
import LeastSquares.Proofs.Exact.Inversion
import LeastSquares.Proofs.Exact.Covariance
import LeastSquares.Proofs.Exact.NormalEquations
import LeastSquares.Proofs.Exact.Affine
import LeastSquares.Proofs.Exact.Reordering
import LeastSquares.Proofs.Divisors
import LeastSquares.Proofs.Redivision
import LeastSquares.Proofs.Exact.Division
import LeastSquares.Proofs.Checked.Solve
import LeastSquares.Proofs.Vanishing
import LeastSquares.Proofs.Scaling
import LeastSquares.Proofs.Staleness
import LeastSquares.Proofs.Exact.Reconstruction
import LeastSquares.Proofs.Prearrangement
import LeastSquares.Proofs.Exact.Ordering
import LeastSquares.Proofs.Exact.Truncation
import LeastSquares.Proofs.Checked.Frame
import LeastSquares.Proofs.Exact.Bracketing
import LeastSquares.Proofs.Exact.Prediction
import LeastSquares.Proofs.Exact.Correlation
import LeastSquares.Proofs.Exact.Guarding
import LeastSquares.Proofs.Undefined
import LeastSquares.Proofs.Json.Configurations
import LeastSquares.Proofs.Json.Terminations
import LeastSquares.Proofs.Exact.Undamped
import LeastSquares.Proofs.Draws
import LeastSquares.Proofs.Exact.Estimation
import LeastSquares.Proofs.Exact.Ranges
