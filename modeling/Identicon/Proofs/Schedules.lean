import Identicon.Proofs.Avatar

/-!
# Work at the same time and one after the other

With the `parallel` option, the rows of a plane are tasks that write their pixels from left to right
into the same bytes, and the channels of an avatar are tasks of their own. What such tasks leave
behind does not depend on the order of their steps, nor on the number of workers they are dealt out
to:

* a row writes in its own part of the bytes alone, and a list of steps in which each row has taken
  all of its steps leaves what the rows leave one after the other;
* a channel puts its result into its own place.

No pixel fails, so that there is no first failure to agree on either. The errors that remain are
those of the options and of the identifier, which are there before the tasks are.
-/

namespace Identicon

variable {trig : Trig} {interleaving interleaving' : Interleaving} {identifier : String}
  {o o' : Options}

/-- The check of options looks at the half size, and at the number of workers for a zero. -/
theorem Options.validate_congr (hsize : o.halfSize = o'.halfSize)
    (hthreads : o.threads = some 0 ↔ o'.threads = some 0) : o.validate = o'.validate := by
  rw [validate, validate, hsize]
  simp only [hthreads]

namespace Avatar

/-- An avatar depends on the half size alone, once the options are accepted, and so do errors. -/
theorem renderUnder_congr (ht : trig.Bounded) (hsize : o.halfSize = o'.halfSize)
    (hthreads : o.threads = some 0 ↔ o'.threads = some 0) :
    renderUnder interleaving trig identifier o = renderUnder interleaving' trig identifier o' := by
  have hvalidate := Options.validate_congr hsize hthreads
  by_cases ho : o.Accepted
  · have ho' : o'.Accepted := ⟨hsize ▸ ho.1, fun h => ho.2 (hthreads.mpr h)⟩
    have hcanvas : o.canvas = o'.canvas := congrArg Canvas.mk hsize
    rcases lt_or_ge (lowercaseOf identifier).length 3 with hshort | hlong
    · rw [renderUnder_of_short ho hshort, renderUnder_of_short ho' hshort]
    · rw [renderUnder_of_accepted ht ho hlong, renderUnder_of_accepted ht ho' hlong, hcanvas]
  · obtain ⟨reason, herror, -⟩ := Options.validate_of_not_accepted ho
    rw [renderUnder_of_validate_eq_error herror,
      renderUnder_of_validate_eq_error (hvalidate ▸ herror)]

/-- **Work at the same time gives what work one after the other does.** For all orders of the steps
of rows: no step fails, the rows are full once each has had as many steps as pixels, and the bytes
are then those of the rows one after the other. For all orders of the rows of each channel and of
the channels, all numbers of workers and all identifiers: the avatar or error is the same as with
one channel after the other. -/
theorem parallel_eq_sequential (trig : Trig) (ht : trig.Bounded) :
    (∀ (e : Expr) (halfSize : UInt32) (c : Canvas) (policy : Policy),
      Canvas.ofHalfSize halfSize = .ok c →
      ∃ bytes : Array UInt8,
        fillRowByRow c.side.toNat (c.pixel trig e policy) = .ok bytes ∧
        (∀ order : List ℕ, ∃ work : RowsInProgress,
          order.foldlM (RowsInProgress.step c.side.toNat (c.pixel trig e policy))
            (.start c.side.toNat) = .ok work ∧
          (work.Finished c.side.toNat ↔
            ∀ row < c.side.toNat, c.side.toNat ≤ order.count row) ∧
          (work.Finished c.side.toNat → work.bytes = bytes)) ∧
        ∀ execution : Execution, rasterizeOn trig e c policy execution =
          .ok ⟨c.side.toNat, c.side.toNat, bytes⟩) ∧
    ∀ (interleaving interleaving' : Interleaving) (identifier : String) (o : Options)
      (threads threads' : Option UInt64), (threads = some 0 ↔ threads' = some 0) →
      renderUnder interleaving trig identifier { o with parallel := true, threads } =
        renderUnder interleaving' trig identifier
          { o with parallel := false, threads := threads' } := by
  constructor
  · intro e halfSize c policy hcanvas
    obtain ⟨-, hc⟩ := Canvas.ofHalfSize_eq_ok_iff.mp hcanvas
    have hpixel : ∀ px < c.side.toNat, ∀ py < c.side.toNat,
        c.pixel trig e policy px py = .ok (c.byteAt trig e px py) :=
      fun _ hpx _ hpy => Canvas.pixel_eq hc ht hpx hpy
    exact ⟨_, fillRowByRow_eq hpixel, RowsInProgress.foldlM_step_start hpixel,
      rasterizeOn_eq hc ht e policy⟩
  · intro interleaving interleaving' identifier o threads threads' hthreads
    exact renderUnder_congr ht rfl hthreads

/-- The two rows of the smallest canvas in turn, and the avatar of an identifier on it. -/
theorem parallel_eq_sequential_abc :
    (∃ bytes : Array UInt8, ∃ work : RowsInProgress,
      fillRowByRow 2 ((⟨1⟩ : Canvas).pixel .coarse (.sine (.leaf .x)) .strict) = .ok bytes ∧
      [1, 0, 0, 1].foldlM (RowsInProgress.step 2
        ((⟨1⟩ : Canvas).pixel .coarse (.sine (.leaf .x)) .strict)) (.start 2) = .ok work ∧
      work.bytes = bytes) ∧
    renderUnder ⟨fun _ _ => [1, 0, 0, 1], [.blue, .red, .green]⟩ .coarse "abc"
        ⟨1, .strict, true, some 2⟩ =
      renderUnder (.ofWorkers 1) .coarse "abc" ⟨1, .strict, false, none⟩ := by
  obtain ⟨hrows, hchannels⟩ := parallel_eq_sequential .coarse Trig.coarse_bounded
  constructor
  · obtain ⟨bytes, hbytes, hwork, -⟩ := hrows (.sine (.leaf .x)) 1 ⟨1⟩ .strict rfl
    obtain ⟨work, hrun, hfinished, heq⟩ := hwork [1, 0, 0, 1]
    exact ⟨bytes, work, hbytes, hrun, heq (hfinished.mpr (by decide))⟩
  · exact hchannels _ _ "abc" ⟨1, .strict, true, none⟩ (some 2) none (by decide)

end Avatar

end Identicon
