import Identicon.Channels
import Identicon.Error

/-!
# Work in any order

The rows of a plane can be filled by several workers at once, and so can the three planes of an
image. What the workers do then falls into steps, which take place in an order that nobody controls:
each step writes the next pixel of one row. An `Interleaving` names such an order, and running it
here shows what the workers together leave behind.

An order may name a row that is full or does not exist; that step does nothing. When the order is
used up, the pixels that are still missing follow row by row, as the work is not over before.

## Main definitions

* `RowsInProgress`, `RowsInProgress.step`: the state of the work and one step of a row.
* `fillInOrder`: all steps of all rows, in a given order.
* `Channel.join`: three tasks, one for each channel, that finish in a given order.
* `Interleaving`: an order for the rows of each channel and for the channels.
* `Interleaving.ofWorkers`: the order in which a number of workers in lockstep proceed.
-/

namespace Identicon

/-- The pixels of a square so far, 0 where none has been written, and for each row the column of the
next one. -/
structure RowsInProgress where
  bytes : Array UInt8
  columns : Array Nat
deriving Repr

namespace RowsInProgress

/-- No pixel has been written. -/
def start (side : Nat) : RowsInProgress :=
  ⟨Array.replicate (side * side) 0, Array.replicate side 0⟩

/-- Writes the next pixel of a row. -/
def step {ε : Type} (side : Nat) (pixel : Nat → Nat → Except ε UInt8) (work : RowsInProgress)
    (row : Nat) : Except ε RowsInProgress :=
  match work.columns[row]? with
  | none => .ok work
  | some px =>
    if px < side then
      match pixel px row with
      | .ok b =>
        .ok ⟨work.bytes.setIfInBounds (row * side + px) b, work.columns.setIfInBounds row (px + 1)⟩
      | .error e => .error e
    else .ok work

end RowsInProgress

/-- The order in which one row after the other takes all its steps. -/
def rowByRow (side : Nat) : List Nat :=
  (List.range side).flatMap (List.replicate side)

/-- The pixels of a square, with the steps taken in the given order and the rest row by row. Fails
with the first step that does. -/
def fillInOrder {ε : Type} (side : Nat) (pixel : Nat → Nat → Except ε UInt8) (order : List Nat) :
    Except ε (Array UInt8) := do
  return (← (order ++ rowByRow side).foldlM (RowsInProgress.step side pixel) (.start side)).bytes

/-- The results of three tasks that finish in the given order, each put into its place when it
finishes. Tasks that the order does not name finish last. -/
def Channel.join {α : Type} (order : List Channel) (task : Channel → α) : Channels α :=
  let finished : Channels (Option α) :=
    order.foldl (fun slots c => slots.set (some (task c)) c) ⟨none, none, none⟩
  .ofFn fun c => (finished.get c).getD (task c)

/-- An order for the steps of the rows of each channel, given the length of a side, and for the
channels. -/
structure Interleaving where
  rows : Channel → Nat → List Nat
  channels : List Channel

/-- The order of a number of workers that take one row each and advance in lockstep, before they
take the next rows. There is at least one worker, and none has to be idle. -/
def rowsOfWorkers (workers side : Nat) : List Nat :=
  let workers := max 1 (min workers side)
  (List.range (side / workers + 1)).flatMap fun batch =>
    (List.replicate side (List.range' (batch * workers) workers)).flatten

/-- The interleaving in which each channel has this number of workers. -/
def Interleaving.ofWorkers (workers : Nat) : Interleaving :=
  ⟨fun _ => rowsOfWorkers workers, [.red, .green, .blue]⟩

end Identicon
