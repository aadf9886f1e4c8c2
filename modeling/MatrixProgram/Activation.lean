/-!
# Elementwise functions

The three nonlinearities of the library, with their derivatives written in terms of
the value of the function: `relu`, the logistic sigmoid and the hyperbolic tangent.
-/

namespace MatrixProgram

/-- The elementwise nonlinearities. -/
inductive Activation where
  | relu
  | sigmoid
  | tanh
deriving DecidableEq, Repr

namespace Activation

/-- The name of a function. -/
def name : Activation → String
  | .relu => "relu"
  | .sigmoid => "sigmoid"
  | .tanh => "tanh"

/-- The value of a function.  What is not above zero, an invalid number included, is
rectified to zero. -/
def apply : Activation → Float32 → Float32
  | .relu, x => if x > 0 then x else 0
  | .sigmoid, x => 1 / (1 + (-x).exp)
  | .tanh, x => x.tanh

/-- The derivative of a function at a point where its value is `y`. -/
def derivativeFromOutput : Activation → Float32 → Float32
  | .relu, y => if y > 0 then 1 else 0
  | .sigmoid, y => y * (1 - y)
  | .tanh, y => 1 - y * y

end Activation

end MatrixProgram
