/-
  Windows: views that keep the whole buffer they look into.

  A window is a buffer with a start and a stop offset.  Splitting only moves
  the two offsets, so every part knows where it lies in the buffer.
-/
import ParseKit.Input.Basic

set_option autoImplicit false

namespace ParseKit

/-- The part of a buffer from `start` to `stop`. -/
structure Window (ι : Type) where
  buffer : ι
  start : Nat
  stop : Nat
  deriving Repr

namespace Window

variable {ι σ : Type} [Input ι σ]

/-- The window on all of a buffer. -/
def whole (buffer : ι) : Window ι := ⟨buffer, 0, Input.length buffer⟩

/-- The content looked at. -/
def view (w : Window ι) : ι := Input.between w.buffer w.start w.stop

/-- Where the window begins in its buffer. -/
def offset (w : Window ι) : Nat := w.start

/-- The buffer is left alone; the parts meet at `start + n`. -/
def splitAt (w : Window ι) (n : Nat) : Window ι × Window ι :=
  ({ w with stop := w.start + n }, { w with start := w.start + n })

/-- The window lies inside its buffer, with both ends on symbol boundaries. -/
def WellFormed (w : Window ι) : Prop :=
  w.start ≤ w.stop ∧ w.stop ≤ Input.length w.buffer ∧
    Input.isBoundary w.buffer w.start = true ∧ Input.isBoundary w.buffer w.stop = true

end Window

instance {ι σ : Type} [Input ι σ] : Input (Window ι) σ where
  length w := w.stop - w.start
  isBoundary w n := Input.isBoundary w.view n
  splitAt := Window.splitAt
  indexed w := Input.indexed w.view
  bytes w := Input.bytes w.view
  sliceIndex count w := Input.sliceIndex count w.view

/-- Windows are compared by what they show, wherever it lies. -/
instance {ι σ : Type} [Input ι σ] [BEq ι] : BEq (Window ι) := ⟨fun v w => v.view == w.view⟩

end ParseKit
