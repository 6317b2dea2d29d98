import Identicon.Raster.Interleaving
import Mathlib

/-!
# Values for the channels

Three values are known by what they are for each channel. Three results without a failure make one
result, and three tasks leave the same results behind in whatever order they finish: a slot is empty
or holds what its own task returned.
-/

namespace Identicon

variable {α β ε : Type}

theorem ok_bind (a : α) (f : α → Except ε β) : (Except.ok a >>= f) = f a := rfl

theorem error_bind (e : ε) (f : α → Except ε β) : (Except.error e >>= f) = .error e := rfl

/-- A step that is followed by success has succeeded. -/
theorem exists_of_bind_eq_ok {x : Except ε α} {f : α → Except ε β} {b : β}
    (h : x >>= f = .ok b) : ∃ a, x = .ok a ∧ f a = .ok b := by
  cases x with
  | error e => cases h
  | ok a => exact ⟨a, rfl, h⟩

namespace Channels

theorem ext_get {as bs : Channels α} (h : ∀ c, as.get c = bs.get c) : as = bs := by
  obtain ⟨r, g, b⟩ := as
  obtain ⟨r', g', b'⟩ := bs
  rw [mk.injEq]
  exact ⟨h .red, h .green, h .blue⟩

@[simp]
theorem get_map (f : α → β) (as : Channels α) (c : Channel) :
    (as.map f).get c = f (as.get c) := by
  cases c <;> rfl

@[simp]
theorem get_ofFn (f : Channel → α) (c : Channel) : (ofFn f).get c = f c := by
  cases c <;> rfl

@[simp]
theorem get_set (as : Channels α) (a : α) (c c' : Channel) :
    (as.set a c).get c' = if c' = c then a else as.get c' := by
  cases c <;> cases c' <;> rfl

/-- Three results are one result if none of them is a failure. -/
theorem sequence_eq_ok {rs : Channels (Except ε α)} {as : Channels α}
    (h : ∀ c, rs.get c = .ok (as.get c)) : rs.sequence = .ok as := by
  obtain ⟨r, g, b⟩ := rs
  have hr : r = .ok as.red := h .red
  have hg : g = .ok as.green := h .green
  have hb : b = .ok as.blue := h .blue
  subst hr hg hb
  rfl

/-- If three results make one result, none of them is a failure. -/
theorem get_of_sequence_eq_ok {rs : Channels (Except ε α)} {as : Channels α}
    (h : rs.sequence = .ok as) (c : Channel) : rs.get c = .ok (as.get c) := by
  obtain ⟨r, g, b⟩ := rs
  obtain ⟨r', hr, h⟩ := exists_of_bind_eq_ok h
  obtain ⟨g', hg, h⟩ := exists_of_bind_eq_ok h
  obtain ⟨b', hb, h⟩ := exists_of_bind_eq_ok h
  cases h
  cases c with
  | red => exact hr
  | green => exact hg
  | blue => exact hb

end Channels

/-- Whatever has been put into the slots is what the tasks returned. -/
theorem Channel.get_foldl_finished (order : List Channel) (task : Channel → α)
    {slots : Channels (Option α)} (hslots : ∀ c, slots.get c = none ∨ slots.get c = some (task c))
    (c : Channel) :
    (order.foldl (fun slots c => slots.set (some (task c)) c) slots).get c = none ∨
      (order.foldl (fun slots c => slots.set (some (task c)) c) slots).get c = some (task c) := by
  induction order generalizing slots with
  | nil => exact hslots c
  | cons finished order ih =>
    apply ih
    intro c'
    rw [Channels.get_set]
    split_ifs with h
    · right
      rw [h]
    · exact hslots c'

/-- The order in which tasks finish does not show. -/
theorem Channel.join_eq (order : List Channel) (task : Channel → α) :
    Channel.join order task = .ofFn task := by
  apply Channels.ext_get
  intro c
  rw [Channel.join, Channels.get_ofFn, Channels.get_ofFn]
  have hstart : ∀ c, (⟨none, none, none⟩ : Channels (Option α)).get c = none ∨
      (⟨none, none, none⟩ : Channels (Option α)).get c = some (task c) := by
    intro c
    left
    cases c <;> rfl
  rcases Channel.get_foldl_finished order task hstart c with h | h
  · rw [h, Option.getD_none]
  · rw [h, Option.getD_some]

end Identicon
