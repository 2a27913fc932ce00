import Portalocker.Utils.Capacity
set_option autoImplicit false
set_option linter.unusedSectionVars false

/-!
# When a semaphore reports that it is full

A sweep looks at one slot after the other, so a slot it has found taken may be free
again when it comes to the last one.  The run is recorded call by call: which slots
the sweep that goes on has found taken, and whether all of them have been taken at
one moment.  As long as nobody lets go of a slot the sweep has passed, the slots it
has found taken stay so, and a call that reports a full semaphore has met the moment
at which the last one was found taken too.
-/

namespace Portalocker

open Posix Interleaving Interleaving.Machine World Contract

variable {ι : Type} [DecidableEq ι]

/-! ## The record -/

/-- What is recorded of the latest call of every client. -/
structure SweepLog (ι : Type) where
  /-- it acquires -/
  asked : ι → Bool
  /-- nothing has failed but lock attempts, by contention, and closings that the
  code ignores -/
  contended : ι → Bool
  /-- the slots that the sweep it is in has found taken, the latest first -/
  taken : ι → List Path
  /-- all slots have been taken at one moment -/
  full : ι → Bool

/-- All slots are locked. -/
def AllTaken (sem : BoundedSemaphore) (w : World ι) : Prop :=
  ∀ n < sem.maximum, ∃ h ∈ w.opened, h.path = sem.getFilename n ∧ w.lock h ≠ none

instance (sem : BoundedSemaphore) (w : World ι) : Decidable (AllTaken sem w) :=
  inferInstanceAs (Decidable (∀ n < sem.maximum, ∃ h ∈ w.opened,
    h.path = sem.getFilename n ∧ w.lock h ≠ none))

/-- The lock attempt has failed because another handle is locked. -/
def Contention (w : World ι) (h : Handle ι Path) (e : Exc) : Prop :=
  (h ∈ w.opened ∧ w.Conflicts h .exclusive) ∧ (e = .osError .EACCES ∨ e = .osError .EAGAIN)

instance (w : World ι) (h : Handle ι Path) (e : Exc) : Decidable (Contention w h e) :=
  inferInstanceAs (Decidable (_ ∧ _))

namespace SweepLog

variable (log : SweepLog ι)

/-- No call has been made. -/
def empty : SweepLog ι := ⟨fun _ => false, fun _ => false, fun _ => [], fun _ => false⟩

/-- A call looks whether the client has a slot. -/
@[simps] def begin (p : ι) (b : Bool) : SweepLog ι where
  asked := Function.update log.asked p b
  contended := Function.update log.contended p true
  taken := Function.update log.taken p []
  full := Function.update log.full p false

/-- The sweep has found a slot taken; it ends with the last one. -/
@[simps] def found (sem : BoundedSemaphore) (p : ι) (path : Path) : SweepLog ι :=
  { log with
    taken := Function.update log.taken p
      (if path = sem.getFilename (sem.maximum - 1) then [] else path :: log.taken p) }

/-- The sweep has locked a slot. -/
@[simps] def taking (p : ι) : SweepLog ι :=
  { log with taken := Function.update log.taken p [] }

/-- Something else has failed. -/
@[simps] def failed (p : ι) : SweepLog ι :=
  { log with
    contended := Function.update log.contended p false
    taken := Function.update log.taken p [] }

/-- What an operation of client `p` adds. -/
def note (sem : BoundedSemaphore) (p : ι) (c : Call) (w : World ι) :
    (o : Op ι) → Except Exc (Val o) → SweepLog ι
  | .innerLock, .ok _ => log.begin p c.acquires
  | .flock _ _, .ok _ => log.taking p
  | .flock h _, .error e => if Contention w h e then log.found sem p h.path else log.failed p
  | .close _, .error e => if e.isException then log else log.failed p
  | _, .error _ => log.failed p
  | _, .ok _ => log

/-- Every operation is a moment of all calls. -/
@[simps] def observe (sem : BoundedSemaphore) (w : World ι) : SweepLog ι :=
  { log with full := fun q => log.full q || decide (AllTaken sem w) }

end SweepLog

/-- The recorder of the sweeps over the slots of `sem`. -/
abbrev sweeps (cfg : Config ι) (sem : BoundedSemaphore) : Recorder (machine cfg) where
  Log := SweepLog ι
  record := fun p c w o r w' log => (SweepLog.note log sem p c w o r).observe sem w'

/-- No instance has done anything, and no call has been made. -/
def UnclaimedSweeps (W : World ι × SweepLog ι) : Prop := Unclaimed W.1 ∧ W.2 = .empty

/-- While a sweep of client `p` goes on in a call that has not met a moment at which
all slots were taken, nobody lets go of a slot the sweep has found taken. -/
def sweepUndisturbed (cfg : Config ι) (sem : BoundedSemaphore) (p : ι) :
    Guard ((machine cfg).recorded (sweeps cfg sem)) where
  call _ _ _ := True
  op _ _ (o : Op ι) (W : World ι × SweepLog ι) := ∀ h, o = .unlock h ∨ o = .close h →
    W.1.lock h ≠ none → W.2.full p = false → h.path ∉ W.2.taken p

/-- The latest call of the client has acquired no slot, and its lock attempts failed
only by contention: it reports a full semaphore when it ends. -/
def ReportsFull (p : ι) (W : World ι × SweepLog ι) : Prop :=
  W.2.asked p = true ∧ W.2.contended p = true ∧ W.1.inner p = false

/-- When the client's call reports a full semaphore, all slots have been taken at one
moment of it. -/
def Accurate (p : ι) (W : World ι × SweepLog ι) : Prop :=
  ReportsFull p W → W.2.full p = true

/-! ## What is recorded of one operation -/

section Record

variable {cfg : Config ι} {sem : BoundedSemaphore} {p q : ι} {c : Call} {w w' : World ι}
  {log log' : SweepLog ι} {o : Op ι}

/-- Nothing that is recorded of the client has changed, except that the moment at
which all slots are taken may have come. -/
structure SweepLog.Kept (p : ι) (log log' : SweepLog ι) : Prop where
  asked : log'.asked p = log.asked p
  contended : log'.contended p = log.contended p
  taken : log'.taken p = log.taken p
  full : log.full p = true → log'.full p = true

theorem SweepLog.Kept.refl (p : ι) (log : SweepLog ι) : log.Kept p log :=
  ⟨rfl, rfl, rfl, fun h => h⟩

theorem SweepLog.Kept.trans {log'' : SweepLog ι} (h₁ : log.Kept p log') (h₂ : log'.Kept p log'') :
    log.Kept p log'' :=
  ⟨h₂.asked.trans h₁.asked, h₂.contended.trans h₁.contended, h₂.taken.trans h₁.taken,
    fun h => h₂.full (h₁.full h)⟩

theorem SweepLog.kept_observe (h : log.Kept p log') : log.Kept p (log'.observe sem w) :=
  h.trans ⟨rfl, rfl, rfl, fun h => by simp [h]⟩

/-- The other clients' operations are not recorded as those of `p`. -/
theorem SweepLog.kept_note (hne : p ≠ q) (r : Except Exc (Val o)) :
    log.Kept p (log.note sem q c w o r) := by
  have hfailed : log.Kept p (log.failed q) := by
    constructor <;> simp [Function.update_of_ne hne]
  have hfound : ∀ path, log.Kept p (log.found sem q path) := fun path => by
    constructor <;> simp [Function.update_of_ne hne]
  unfold note
  split
  · constructor <;> simp [Function.update_of_ne hne]
  · constructor <;> simp [Function.update_of_ne hne]
  · split
    · exact hfound _
    · exact hfailed
  · split
    · exact .refl p log
    · exact hfailed
  · exact hfailed
  · exact .refl p log

/-- A slot that is recorded as taken was so before, or is the one whose lock attempt
has just failed; and a call that begins has found none. -/
theorem SweepLog.taken_note (r : Except Exc (Val o)) :
    (log.note sem p c w o r).taken p = [] ∨
      (log.note sem p c w o r).full p = log.full p ∧
      ∀ path ∈ (log.note sem p c w o r).taken p, path ∈ log.taken p ∨
        ∃ h flags, o = .flock h flags ∧ h.path = path ∧ h ∈ w.opened ∧ w.Conflicts h .exclusive := by
  unfold note
  split
  · exact Or.inl (Function.update_self ..)
  · exact Or.inl (Function.update_self ..)
  · split
    · rename_i h flags e hcontention
      by_cases hlast : h.path = sem.getFilename (sem.maximum - 1)
      · exact Or.inl (by simp [hlast])
      · refine Or.inr ⟨rfl, fun path hmem => ?_⟩
        simp only [found_taken, Function.update_self, if_neg hlast, List.mem_cons] at hmem
        rcases hmem with rfl | hmem
        · exact Or.inr ⟨h, flags, rfl, rfl, hcontention.1⟩
        · exact Or.inl hmem
    · exact Or.inl (Function.update_self ..)
  · split
    · exact Or.inr ⟨rfl, fun path hmem => Or.inl hmem⟩
    · exact Or.inl (Function.update_self ..)
  · exact Or.inl (Function.update_self ..)
  · exact Or.inr ⟨rfl, fun path hmem => Or.inl hmem⟩

/-- What a call does is asked in its first operation. -/
theorem SweepLog.asked_note (ho : o ≠ .innerLock) (r : Except Exc (Val o)) :
    (log.note sem q c w o r).asked = log.asked := by
  unfold note
  split
  · exact absurd rfl ho
  · rfl
  · split <;> rfl
  · split <;> rfl
  · rfl
  · rfl

/-! ## The slots -/

/-- A slot stays taken unless its handle is unlocked or closed. -/
theorem Busy.change {path : Path} (h : Busy w.lock path) (hc : Change cfg p w o w')
    (hheld : ∀ k, o = .unlock k ∨ o = .close k → w.lock k ≠ none → k.path ≠ path) :
    Busy w'.lock path := by
  obtain ⟨k, hk, hpath⟩ := h
  cases hc with
  | lock g flags mode hm ho hc' =>
      refine ⟨k, ?_, hpath⟩
      by_cases hkg : k = g
      · simp [hkg]
      · simpa [Function.update_of_ne hkg] using hk
  | unlock g ho =>
      have hkg : k ≠ g := fun heq => hheld g (Or.inl rfl) (heq ▸ hk) (heq ▸ hpath)
      exact ⟨k, by simpa [Function.update_of_ne hkg] using hk, hpath⟩
  | close g ho content hcontent =>
      have hkg : k ≠ g := fun heq => hheld g (Or.inr rfl) (heq ▸ hk) (heq ▸ hpath)
      exact ⟨k, by simpa [Function.update_of_ne hkg] using hk, hpath⟩
  | _ => exact ⟨k, hk, hpath⟩

/-- An attempt that fails by contention finds the slot of its handle taken. -/
theorem SlotsInv.busy_of_conflicts {h : Handle ι Path} (hw : w.Wf) (hi : SlotsInv sem w)
    (hmem : h ∈ w.opened) (hc : w.Conflicts h .exclusive) : Busy w.lock h.path := by
  obtain ⟨g, hg, -, hino, m, hm, -⟩ := hc
  have hnames : w.names h.path = some g.ino := hino ▸ hi.named hmem
  exact ⟨g, by simp [Option.mem_def.1 hm], hw.fs.path_of_names hg hnames⟩

theorem allTaken_of_busy (hw : w.Wf) (h : ∀ n < sem.maximum, Busy w.lock (sem.getFilename n)) :
    AllTaken sem w := by
  intro n hn
  obtain ⟨k, hk, hpath⟩ := h n hn
  obtain ⟨m, hm⟩ := Option.ne_none_iff_exists'.1 hk
  exact ⟨k, hw.fs.opened_of_lock hm, hpath, hk⟩

/-- The place of a slot in the sweep that has passed `seen`. -/
theorem getFilenames_place {seen rest : List Path} {path : Path}
    (h : seen.reverse ++ path :: rest = sem.getFilenames) :
    path = sem.getFilename seen.length ∧ sem.maximum = seen.length + 1 + rest.length := by
  have hlength := congrArg List.length h
  have hget := congrArg (fun l => l[seen.length]?) h
  simp only [BoundedSemaphore.getFilenames, List.length_append, List.length_reverse,
    List.length_cons, List.length_map, List.length_range] at hlength
  have hlt : seen.length < sem.maximum := by omega
  simp [BoundedSemaphore.getFilenames, hlt] at hget
  exact ⟨hget, by omega⟩

/-- The sweep ends with the last slot. -/
theorem last_iff {seen rest : List Path} {path : Path}
    (h : seen.reverse ++ path :: rest = sem.getFilenames) :
    path = sem.getFilename (sem.maximum - 1) ↔ rest = [] := by
  obtain ⟨hpath, hmaximum⟩ := getFilenames_place h
  constructor
  · intro hlast
    have := getFilename_injective sem (hpath.symm.trans hlast)
    exact List.eq_nil_of_length_eq_zero (by omega)
  · rintro rfl
    have : seen.length = sem.maximum - 1 := by simp at hmaximum; omega
    rw [hpath, this]

/-- With the last slot of a sweep all are taken. -/
theorem allTaken_of_seen {seen : List Path} {path : Path} (hw : w.Wf)
    (h : seen.reverse ++ [path] = sem.getFilenames) (hseen : ∀ path ∈ seen, Busy w.lock path)
    (hbusy : Busy w.lock path) : AllTaken sem w := by
  refine allTaken_of_busy hw fun n hn => ?_
  have hmem : sem.getFilename n ∈ seen.reverse ++ [path] := by
    rw [h]
    exact List.mem_map_of_mem (List.mem_range.2 hn)
  rcases List.mem_append.1 hmem with hmem | hmem
  · exact hseen _ (List.mem_reverse.1 hmem)
  · exact List.mem_singleton.1 hmem ▸ hbusy

/-- The slots that are recorded as taken are taken, until all have been. -/
theorem SlotsInv.busy_record {r : Except Exc (Val o)} (hw : w.Wf) (hi : SlotsInv sem w)
    (hc : Change cfg q w o w')
    (hheld : ∀ h, o = .unlock h ∨ o = .close h → w.lock h ≠ none → log.full p = false →
      h.path ∉ log.taken p)
    (htaken : log.full p = true ∨ ∀ path ∈ log.taken p, Busy w.lock path) :
    ((log.note sem q c w o r).observe sem w').full p = true ∨
      ∀ path ∈ ((log.note sem q c w o r).observe sem w').taken p, Busy w'.lock path := by
  have hold : log.full p = false → ∀ path ∈ log.taken p, Busy w'.lock path := by
    intro hnot path hmem
    rcases htaken with hfull | hbusy
    · exact absurd (hnot.symm.trans hfull) (by simp)
    · exact (hbusy path hmem).change hc fun k hk hlocked heq =>
        hheld k hk hlocked hnot (heq ▸ hmem)
  have hfull : ∀ {log' : SweepLog ι}, log'.full p = true → (log'.observe sem w').full p = true :=
    fun h => by simp [h]
  by_cases hpq : p = q
  · subst hpq
    rcases log.taken_note r with hnil | ⟨hsame, hmem⟩
    · exact Or.inr fun path hpath => absurd (hnil ▸ hpath : path ∈ []) (by simp)
    · cases hnot : log.full p with
      | true => exact Or.inl (hfull (hsame.trans hnot))
      | false =>
          refine Or.inr fun path hpath => ?_
          rcases hmem path hpath with hmem' | ⟨h, flags, rfl, rfl, hopen, hconflicts⟩
          · exact hold hnot path hmem'
          · exact (hi.busy_of_conflicts hw hopen hconflicts).change hc fun k hk => by
              rcases hk with hk | hk <;> cases hk
  · have hkept : log.Kept p ((log.note sem q c w o r).observe sem w') :=
      SweepLog.kept_observe (SweepLog.kept_note hpq r)
    cases hnot : log.full p with
    | true => exact Or.inl (hkept.full hnot)
    | false => exact Or.inr fun path hpath => hold hnot path (hkept.taken ▸ hpath)

end Record

/-! ## The discipline of the recorded runs -/

section Discipline

variable {cfg : Config ι} {sem : BoundedSemaphore} {p : ι}

/-- What client `p` can rely on: the slots its sweep has found taken stay so, until all
have been taken at one moment. -/
def sweepNotes (cfg : Config ι) (sem : BoundedSemaphore) (p : ι) :
    Annotation (slotsContract cfg sem (Guard.free (machine cfg))).toDiscipline (sweeps cfg sem)
      (sweepUndisturbed cfg sem p) where
  inv := fun (W : World ι × SweepLog ι) =>
    W.2.full p = true ∨ ∀ path ∈ W.2.taken p, Busy W.1.lock path
  kept := SweepLog.Kept
  idle := fun q (W : World ι × SweepLog ι) => q = p → Accurate q W
  kept_refl := .refl
  kept_trans := .trans
  inv_record := fun hw htaken hheld _ h =>
    hw.2.busy_record hw.1 (Config.performOp_change h) hheld htaken
  kept_record := fun hq => SweepLog.kept_observe (SweepLog.kept_note hq _)
  inv_event := by
    intro e (w : World ι) w' log hw htaken hevent
    refine htaken.imp_right fun hbusy path hmem => ?_
    obtain ⟨k, hk, hpath⟩ := hbusy path hmem
    obtain ⟨-, hd, rfl⟩ := Config.finalize_cases hevent
    have hke : k ≠ e.handle := fun heq => hk (hw.2.dropped (heq ▸ hd))
    exact ⟨k, by simpa [Function.update_of_ne hke] using hk, hpath⟩
  idle_stable := by
    rintro q w w' log log' ⟨hu, -⟩ hkept hidle hq ⟨hasked, hcontended, hinner⟩
    exact hkept.full (hidle hq ⟨hkept.asked ▸ hasked, hkept.contended ▸ hcontended,
      hu.inner.symm.trans hinner⟩)

end Discipline

/-! ## Assertions about a sweep -/

section Assertions

/-- The client has asked for a slot and has none. -/
def Asking (p : ι) (W : World ι × SweepLog ι) : Prop :=
  W.1.fh p = none ∧ W.1.inner p = false ∧ W.2.asked p = true

/-- The sweep has found `seen` taken and is not at its end, or all slots have been
taken at one moment. -/
def SoFar (p : ι) (seen rest : List Path) (W : World ι × SweepLog ι) : Prop :=
  W.2.full p = true ∨ rest ≠ [] ∧ W.2.taken p = seen

/-- The sweep has found `seen` taken and is about to look at `rest`. -/
def AtSlot (p : ι) (seen rest : List Path) (W : World ι × SweepLog ι) : Prop :=
  Asking p W ∧ (W.2.contended p = true → SoFar p seen rest W)

/-- The slot before `rest` is given up for `e`, which is `AlreadyLocked` when nothing
but contention is to blame. -/
def GivesUp (p : ι) (seen rest : List Path) (e : Exc) (W : World ι × SweepLog ι) : Prop :=
  Asking p W ∧ (W.2.contended p = true → e = .alreadyLocked ∧ SoFar p seen rest W)

/-- The client has no slot, and if nothing but contention is to blame, all slots have
been taken at one moment. -/
def Without (p : ι) (W : World ι × SweepLog ι) : Prop :=
  Asking p W ∧ (W.2.contended p = true → W.2.full p = true)

/-- The client refers to the lock of a slot. -/
def Within (p : ι) (W : World ι × SweepLog ι) : Prop := W.1.inner p = true

variable {cfg : Config ι} {sem : BoundedSemaphore} {p : ι} {c : Call} {seen rest : List Path}

/-- The context of a call of client `p`. -/
abbrev sweepCtx (cfg : Config ι) (sem : BoundedSemaphore) (p : ι) (c : Call) :
    Context (World ι × SweepLog ι) (Op ι) (fun o => Except Exc (Val o)) :=
  recordedCtx (sweepNotes cfg sem p).discipline p c

/-- What speaks of the client's attributes and record only is stable when it survives
the moment at which all slots are taken. -/
theorem sweep_stable {P : World ι × SweepLog ι → Prop}
    (h : ∀ {w w' : World ι} {log log' : SweepLog ι}, w'.fh p = w.fh p → w'.inner p = w.inner p →
      log.Kept p log' → P (w, log) → P (w', log')) : (sweepCtx cfg sem p c).Stable P :=
  ⟨fun _ _ hr hP => h hr.1.1.fh hr.1.1.inner hr.2 hP⟩

theorem Asking.kept {w w' : World ι} {log log' : SweepLog ι} (hfh : w'.fh p = w.fh p)
    (hinner : w'.inner p = w.inner p) (hkept : log.Kept p log') (h : Asking p (w, log)) :
    Asking p (w', log') :=
  ⟨hfh.trans h.1, hinner.trans h.2.1, hkept.asked.trans h.2.2⟩

theorem SoFar.kept {w w' : World ι} {log log' : SweepLog ι} (hkept : log.Kept p log')
    (h : SoFar p seen rest (w, log)) : SoFar p seen rest (w', log') :=
  h.imp hkept.full fun h => ⟨h.1, hkept.taken.trans h.2⟩

theorem AtSlot.kept {w w' : World ι} {log log' : SweepLog ι} (hfh : w'.fh p = w.fh p)
    (hinner : w'.inner p = w.inner p) (hkept : log.Kept p log') (h : AtSlot p seen rest (w, log)) :
    AtSlot p seen rest (w', log') :=
  ⟨h.1.kept hfh hinner hkept, fun hc => (h.2 (hkept.contended ▸ hc)).kept hkept⟩

theorem GivesUp.kept {w w' : World ι} {log log' : SweepLog ι} {e : Exc} (hfh : w'.fh p = w.fh p)
    (hinner : w'.inner p = w.inner p) (hkept : log.Kept p log')
    (h : GivesUp p seen rest e (w, log)) : GivesUp p seen rest e (w', log') :=
  ⟨h.1.kept hfh hinner hkept, fun hc =>
    (h.2 (hkept.contended ▸ hc)).imp_right fun h => h.kept hkept⟩

theorem Without.kept {w w' : World ι} {log log' : SweepLog ι} (hfh : w'.fh p = w.fh p)
    (hinner : w'.inner p = w.inner p) (hkept : log.Kept p log') (h : Without p (w, log)) :
    Without p (w', log') :=
  ⟨h.1.kept hfh hinner hkept, fun hc => hkept.full (h.2 (hkept.contended ▸ hc))⟩

instance stable_atSlot : (sweepCtx cfg sem p c).Stable (AtSlot p seen rest) := sweep_stable .kept

instance stable_givesUp (e : Exc) : (sweepCtx cfg sem p c).Stable (GivesUp p seen rest e) :=
  sweep_stable .kept

instance stable_without : (sweepCtx cfg sem p c).Stable (Without p) := sweep_stable .kept

instance stable_within : (sweepCtx cfg sem p c).Stable (Within p) :=
  sweep_stable fun _ hinner _ h => hinner.trans h

end Assertions

/-! ## Single operations -/

section Operations

variable {cfg : Config ι} {sem : BoundedSemaphore} {p : ι} {c : Call} {seen rest : List Path}

/-- One operation of a client whose sweep is recorded. -/
theorem sweep_rule {o : Op ι} {P : World ι × SweepLog ι → Prop}
    {Q : Val o → World ι × SweepLog ι → Prop} {E : Exc → World ι × SweepLog ι → Prop}
    [(sweepCtx cfg sem p c).Stable P] [∀ v, (sweepCtx cfg sem p c).Stable (Q v)]
    [∀ e, (sweepCtx cfg sem p c).Stable (E e)]
    (hok : ∀ w log choice v w', P (w, log) → cfg.act choice p w o = some (.ok v, w') →
      Q v (w', (log.note sem p c w o (.ok v)).observe sem w'))
    (herr : ∀ w log e, (w.Wf ∧ SlotsInv sem w) ∧
        (log.full p = true ∨ ∀ path ∈ log.taken p, Busy w.lock path) → P (w, log) →
      (∃ choice w', cfg.act choice p w o = some (.error e, w')) ∨ cfg.mayRaise c o e = true →
      E e (Config.afterFault w o,
        (log.note sem p c w o (.error e)).observe sem (Config.afterFault w o))) :
    Hoare (sweepCtx cfg sem p c) P (perform o) Q E := by
  refine recorded_rule (fun _ _ _ _ => trivial) ?_ ?_
  · intro w log choice r w' hw hP _ hact
    cases r with
    | ok v => exact hok w log choice v w' hP hact
    | error e =>
        obtain rfl := Config.act_error hact
        exact herr w log e hw hP (Or.inl ⟨choice, _, hact⟩)
  · exact fun w log e hw hP he => herr w log e hw hP (Or.inr he)

/-- A failure of the client's own is no contention. -/
theorem failed_observe (w : World ι) (log : SweepLog ι) :
    ((log.failed p).observe sem w).contended p = false :=
  Function.update_self ..

/-- Reading and writing attributes raises nothing. -/
theorem attribute_rule (hquiet : AttributesQuiet cfg) {o : Op ι}
    {P : World ι × SweepLog ι → Prop} {Q : Val o → World ι × SweepLog ι → Prop}
    {E : Exc → World ι × SweepLog ι → Prop} [(sweepCtx cfg sem p c).Stable P]
    [∀ v, (sweepCtx cfg sem p c).Stable (Q v)] [∀ e, (sweepCtx cfg sem p c).Stable (E e)]
    (ho : ¬ SystemCall o)
    (hact : ∀ choice w e w', cfg.act choice p w o ≠ some (.error e, w'))
    (hok : ∀ w log choice v w', P (w, log) → cfg.act choice p w o = some (.ok v, w') →
      Q v (w', (log.note sem p c w o (.ok v)).observe sem w')) :
    Hoare (sweepCtx cfg sem p c) P (perform o) Q E := by
  refine sweep_rule hok fun w log e _ _ hraise => ?_
  rcases hraise with ⟨choice, w', h⟩ | h
  · exact absurd h (hact choice w e w')
  · exact absurd (hquiet c o e h) ho

variable (hquiet : AttributesQuiet cfg)
include hquiet

theorem fh_sweep {E : Exc → World ι × SweepLog ι → Prop} [∀ e, (sweepCtx cfg sem p c).Stable (E e)] :
    Hoare (sweepCtx cfg sem p c) (AtSlot p seen rest) (perform .fh)
      (fun v W => v = none ∧ AtSlot p seen rest W) E := by
  refine attribute_rule hquiet id (by simp [Config.act]) ?_
  intro w log choice v w' hs hact
  simp only [Config.act, Option.some.injEq, Prod.mk.injEq, Except.ok.injEq] at hact
  obtain ⟨rfl, rfl⟩ := hact
  exact ⟨hs.1.1, hs.kept rfl rfl (SweepLog.kept_observe (.refl p log))⟩

omit hquiet in
theorem openFile_sweep {path : Path} {rest' : List Path} :
    Hoare (sweepCtx cfg sem p c) (AtSlot p seen rest') (perform (.openFile path .append))
      (fun h W => h.path = path ∧ AtSlot p seen rest' W) (GivesUp p (path :: seen) rest) := by
  refine sweep_rule ?_ ?_
  · intro w log choice h w' hs hact
    have hkept : log.Kept p (SweepLog.observe log sem w') := SweepLog.kept_observe (.refl p log)
    simp only [Config.act] at hact
    split at hact
    · simp only [Option.some.injEq, Prod.mk.injEq, Except.ok.injEq] at hact
      obtain ⟨rfl, rfl⟩ := hact
      exact ⟨rfl, hs.kept rfl rfl hkept⟩
    · simp only [Option.ite_none_right_eq_some, Option.some.injEq, Prod.mk.injEq,
        Except.ok.injEq] at hact
      obtain ⟨-, rfl, rfl⟩ := hact
      exact ⟨rfl, hs.kept rfl rfl hkept⟩
  · intro w log e _ hs _
    refine ⟨hs.1, fun hc => ?_⟩
    exact absurd ((failed_observe w log).symm.trans hc) (by simp)

omit hquiet in
/-- A lock attempt that fails by contention finds the slot taken, and all of them with
the last one. -/
theorem flock_sweep {path : Path} {h : Handle ι Path} (hpath : h.path = path)
    (hplace : seen.reverse ++ path :: rest = sem.getFilenames) :
    Hoare (sweepCtx cfg sem p c) (AtSlot p seen (path :: rest)) (perform (.flock h .lockMethod))
      (fun _ _ => True) fun e => GivesUp p (path :: seen) rest (PosixLocker.translate e) := by
  refine sweep_rule (fun _ _ _ _ _ _ _ => trivial) ?_
  rintro w log e ⟨⟨hw, hi⟩, htaken⟩ hs -
  simp only [Config.afterFault, SweepLog.note]
  split
  · rename_i hcontention
    refine ⟨hs.1, fun hc => ⟨?_, ?_⟩⟩
    · rcases hcontention.2 with rfl | rfl <;> rfl
    · have hbusy : Busy w.lock path :=
        hpath ▸ hi.busy_of_conflicts hw hcontention.1.1 hcontention.1.2
      rcases hs.2 hc with hfull | ⟨-, hseen⟩
      · exact Or.inl (by simp [show log.full p = true from hfull])
      · rcases htaken with hfull | htaken
        · exact Or.inl (by simp [hfull])
        · by_cases hrest : rest = []
          · subst hrest
            have hall : AllTaken sem w := allTaken_of_seen hw hplace (hseen ▸ htaken) hbusy
            exact Or.inl (by simp [hall])
          · refine Or.inr ⟨hrest, ?_⟩
            have hlast : path ≠ sem.getFilename (sem.maximum - 1) :=
              fun heq => hrest ((last_iff hplace).1 heq)
            simp [hpath, hlast, show log.taken p = seen from hseen]
  · refine ⟨hs.1, fun hc => ?_⟩
    exact absurd ((failed_observe w log).symm.trans hc) (by simp)

omit hquiet in
theorem close_sweep (h : Handle ι Path) (e : Exc) :
    Hoare (sweepCtx cfg sem p c) (GivesUp p seen rest e) (perform (.close h))
      (fun _ => GivesUp p seen rest e)
      (Caught (GivesUp p seen rest e) (GivesUp p seen rest)) := by
  refine sweep_rule ?_ ?_
  · intro w log choice v w' hs hact
    have hkept : log.Kept p (SweepLog.observe log sem w') := SweepLog.kept_observe (.refl p log)
    simp only [Config.act] at hact
    split at hact <;>
      (simp only [Option.some.injEq, Prod.mk.injEq] at hact; obtain ⟨-, rfl⟩ := hact)
    · exact hs.kept rfl rfl hkept
    · exact hs.kept rfl rfl hkept
  · intro w log e' _ hs _
    have hfh : (Config.afterFault w (.close h)).fh p = w.fh p ∧
        (Config.afterFault w (.close h)).inner p = w.inner p := by
      simp only [Config.afterFault]
      split <;> exact ⟨rfl, rfl⟩
    unfold Caught
    simp only [SweepLog.note]
    split
    · exact hs.kept hfh.1 hfh.2 (SweepLog.kept_observe (.refl p log))
    · refine ⟨⟨hfh.1.trans hs.1.1, hfh.2.trans hs.1.2.1, hs.1.2.2⟩, fun hc => ?_⟩
      exact absurd ((failed_observe _ log).symm.trans hc) (by simp)

omit hquiet in
/-- Asking the clock or waiting. -/
theorem pause_sweep {o : Op ι} (ho : (∃ timeout, o = .attempts timeout) ∨
      ∃ i checkInterval, o = .sleep i checkInterval) :
    Hoare (sweepCtx cfg sem p c) (Without p) (perform o) (fun _ => Without p)
      fun _ => Without p := by
  have hfailed : ∀ {w : World ι} {log : SweepLog ι}, Without p (w, log) →
      Without p (w, (log.failed p).observe sem w) := fun {w log} hs =>
    ⟨hs.1, fun hc => absurd ((failed_observe w log).symm.trans hc) (by simp)⟩
  rcases ho with ⟨timeout, rfl⟩ | ⟨i, checkInterval, rfl⟩
  · refine sweep_rule ?_ fun w log e _ hs _ => hfailed hs
    intro w log choice v w' hs hact
    simp only [Config.act, Option.ite_none_left_eq_some, Option.some.injEq, Prod.mk.injEq] at hact
    obtain ⟨-, -, rfl⟩ := hact
    exact hs.kept rfl rfl (SweepLog.kept_observe (.refl p log))
  · refine sweep_rule ?_ fun w log e _ hs _ => hfailed hs
    intro w log choice v w' hs hact
    simp only [Config.act, Option.some.injEq, Prod.mk.injEq] at hact
    obtain ⟨-, rfl⟩ := hact
    exact hs.kept rfl rfl (SweepLog.kept_observe (.refl p log))

theorem setInner_sweep {P Q : World ι × SweepLog ι → Prop} {E : Exc → World ι × SweepLog ι → Prop}
    [(sweepCtx cfg sem p c).Stable P] [(sweepCtx cfg sem p c).Stable Q]
    [∀ e, (sweepCtx cfg sem p c).Stable (E e)] (b : Bool)
    (hP : ∀ w log, P (w, log) → Q (w.setInner p b, SweepLog.observe log sem (w.setInner p b))) :
    Hoare (sweepCtx cfg sem p c) P (perform (.setInnerLock b)) (fun _ => Q) E := by
  refine attribute_rule hquiet id (by simp [Config.act]) ?_
  intro w log choice v w' hs hact
  simp only [Config.act, Option.some.injEq, Prod.mk.injEq] at hact
  obtain ⟨-, rfl⟩ := hact
  exact hP w log hs

/-! ## `try_lock` -/

/-- `Lock.acquire` of the lock made for a slot. -/
theorem slotLock_sweep {path : Path} (hplace : seen.reverse ++ path :: rest = sem.getFilenames) :
    Hoare (sweepCtx cfg sem p c) (AtSlot p seen (path :: rest))
      ((BoundedSemaphore.slotLock path).acquire none none none) (fun _ _ => True)
      (GivesUp p (path :: seen) rest) := by
  refine Hoare.bind (fh_sweep hquiet) fun v => Hoare.of_fact fun hv => ?_
  subst hv
  simp only [getFh_slotLock]
  refine Hoare.bind openFile_sweep fun h => Hoare.of_fact fun hpath => ?_
  refine acquireOpened_rule (T := GivesUp p (path :: seen) rest)
    (G := GivesUp p (path :: seen) rest) (D := GivesUp p (path :: seen) rest)
    (L := fun _ => True) (posixLock_rule (flock_sweep hpath hplace) fun _ _ _ hs => hs)
    (fun e => close_sweep h e) ?_ (fun _ _ _ _ hs => hs) (fun _ _ _ hfail => by cases hfail)
    (fun _ hfail => by cases hfail) (fun _ _ hfail => by cases hfail)
    (by rw [prepareFh_slotLock]; exact Hoare.pure fun _ _ hs => hs) ?_ fun e => ?_
  · rintro e e' W - hreports ⟨hasking, hs⟩
    refine ⟨hasking, fun hc => ⟨?_, (hs hc).2⟩⟩
    obtain ⟨rfl, -⟩ := hs hc
    exact hreports.elim id id
  · exact attribute_rule hquiet id (by simp [Config.act]) fun _ _ _ _ _ _ _ => trivial
  · refine attribute_rule hquiet id (by simp [Config.act]) ?_
    intro w log choice v w' hs hact
    simp only [Config.act, Option.some.injEq, Prod.mk.injEq] at hact
    obtain ⟨-, rfl⟩ := hact
    exact hs.kept rfl rfl (SweepLog.kept_observe (.refl p log))

/-- One slot of the sweep. -/
theorem trySlot_sweep {path : Path} (hplace : seen.reverse ++ path :: rest = sem.getFilenames) :
    Hoare (sweepCtx cfg sem p c) (AtSlot p seen (path :: rest)) (BoundedSemaphore.trySlot path)
      (fun taken W => taken = false → AtSlot p (path :: seen) rest W) (fun _ => Without p) := by
  refine Hoare.tryCatch (F := GivesUp p (path :: seen) rest) ?_ fun e => ?_
  · exact Hoare.bind (slotLock_sweep hquiet hplace) fun h =>
      Hoare.pure fun _ _ _ htaken => by cases htaken
  · split
    · exact Hoare.pure fun W _ hs _ => ⟨hs.1, fun hc => (hs.2 hc).2⟩
    · rename_i he
      have hwithout : ∀ {W : World ι × SweepLog ι}, GivesUp p (path :: seen) rest e W →
          Without p W := fun hs => ⟨hs.1, fun hc => absurd (hs.2 hc).1 he⟩
      split
      · refine Hoare.bind (setInner_sweep (Q := Without p) hquiet false ?_) fun _ =>
          Hoare.throw fun _ _ hs => hs
        intro w log hs
        refine ⟨⟨hs.1.1, Function.update_self .., hs.1.2.2⟩, fun hc => ?_⟩
        exact absurd (hs.2 hc).1 he
      · exact Hoare.throw fun _ _ hs => hwithout hs

/-- A whole sweep. -/
theorem tryLock_sweep (hall : seen.reverse ++ rest = sem.getFilenames) :
    Hoare (sweepCtx cfg sem p c) (AtSlot p seen rest) (BoundedSemaphore.tryLock rest)
      (fun taken => if taken then Within p else Without p) (fun _ => Without p) := by
  have hstable : ∀ taken : Bool, (sweepCtx cfg sem p c).Stable
      (if taken = true then Within p else Without p) := fun taken => by
    cases taken
    · exact stable_without
    · exact stable_within
  induction rest generalizing seen with
  | nil =>
      refine Hoare.pure fun W _ hs => ⟨hs.1, fun hc => ?_⟩
      exact (hs.2 hc).resolve_right fun h => h.1 rfl
  | cons path rest ih =>
      have hdiscard : Hoare (sweepCtx cfg sem p c) (AtSlot p seen (path :: rest))
          (perform .discardLock) (fun _ => AtSlot p seen (path :: rest)) fun _ => Without p := by
        refine attribute_rule hquiet id (by simp [Config.act]) ?_
        intro w log choice v w' hs hact
        simp only [Config.act, Option.some.injEq, Prod.mk.injEq] at hact
        obtain ⟨-, rfl⟩ := hact
        have hfh : (w.discardLock p).fh p = w.fh p := by
          rw [show w.fh p = none from hs.1.1]
          exact Function.update_self ..
        exact hs.kept hfh rfl (SweepLog.kept_observe (.refl p log))
      refine Hoare.bind hdiscard fun _ => Hoare.bind (trySlot_sweep hquiet hall) fun taken => ?_
      cases taken with
      | true =>
          exact Hoare.bind (setInner_sweep hquiet true fun w log _ =>
            show (w.setInner p true).inner p = true from Function.update_self ..) fun _ =>
              Hoare.pure fun _ _ hs => hs
      | false =>
          have hall' : (path :: seen).reverse ++ rest = sem.getFilenames := by simpa using hall
          exact (ih hall').of_pre fun _ _ hs => hs rfl

/-! ## The calls -/

omit hquiet in
/-- A call that ends without a slot. -/
theorem Without.accurate {W : World ι × SweepLog ι} (h : Without p W) : Accurate p W :=
  fun hreports => h.2 hreports.2.1

omit hquiet in
theorem Within.accurate {W : World ι × SweepLog ι} (h : Within p W) : Accurate p W :=
  fun hreports => absurd (hreports.2.2.symm.trans h) (by simp)

instance stable_accurate : (sweepCtx cfg sem p c).Stable (Accurate p) :=
  sweep_stable fun _ hinner hkept h hreports => hkept.full
    (h ⟨hkept.asked ▸ hreports.1, hkept.contended ▸ hreports.2.1, hinner.symm.trans hreports.2.2⟩)

instance stable_sweepAtRest : (sweepCtx cfg sem p c).Stable fun W => SlotAtRest p W.1 :=
  ⟨fun hw hw' hr h => Discipline.idle_stable
    (slotsContract cfg sem (Guard.free (machine cfg))).toDiscipline hw.1 hw'.1 hr.1 h⟩

/-- The first operation of `acquire`: with it the call begins. -/
theorem innerLock_sweep {E : Exc → World ι × SweepLog ι → Prop}
    [∀ e, (sweepCtx cfg sem p c).Stable (E e)] (hc : c.acquires = true) :
    Hoare (sweepCtx cfg sem p c) (fun W => SlotAtRest p W.1) (perform .innerLock)
      (fun b W => W.1.inner p = b ∧ (b = false → AtSlot p [] sem.getFilenames W)) E := by
  have hstable : ∀ b, (sweepCtx cfg sem p c).Stable fun W => W.1.inner p = b := fun b =>
    sweep_stable fun _ hinner _ h => hinner.trans h
  refine attribute_rule hquiet id (by simp [Config.act]) ?_
  intro w log choice b w' hs hact
  simp only [Config.act, Option.some.injEq, Prod.mk.injEq, Except.ok.injEq] at hact
  obtain ⟨rfl, rfl⟩ := hact
  refine ⟨rfl, fun hinner => ⟨⟨hs.inner hinner, hinner, ?_⟩, fun _ => ?_⟩⟩
  · exact (Function.update_self ..).trans hc
  · by_cases hnil : sem.getFilenames = []
    · have hzero : sem.maximum = 0 := by simpa [BoundedSemaphore.getFilenames] using hnil
      have hall : AllTaken sem w := fun n hn => absurd hn (by omega)
      exact Or.inl (by simp [hall])
    · exact Or.inr ⟨hnil, Function.update_self ..⟩

/-- `acquire`, in a call that acquires. -/
theorem acquire_sweep {self : BoundedSemaphore} (hself : self.getFilenames = sem.getFilenames)
    (hc : c.acquires = true) (timeout checkInterval : Option Rat) (b : Option Bool) :
    Hoare (sweepCtx cfg sem p c) (fun W => SlotAtRest p W.1)
      (self.acquire timeout checkInterval b) (fun _ => Accurate p) fun _ => Accurate p := by
  refine Hoare.bind (innerLock_sweep hquiet hc) fun inner => ?_
  cases inner with
  | true =>
      refine Hoare.of_pre (P := Within p) ?_ fun _ _ hs => hs.1
      exact Hoare.throw fun _ _ hs => hs.accurate
  | false =>
      refine Hoare.bind (R := Ends (fun _ => Within p) fun _ => Without p)
        (((timeoutGenerator_rule (F := fun _ => Without p) (E := fun _ => Without p) ?_
          ?_ (fun e => pause_sweep (Or.inl ⟨_, rfl⟩))
          fun i e => pause_sweep (Or.inr ⟨_, _, rfl⟩))).conseq (fun _ _ hs => hs.2 rfl)
            (fun _ _ _ hs => hs) fun _ _ _ hs => hs.accurate) fun outcome => ?_
      · rw [hself]
        refine Hoare.bind (tryLock_sweep hquiet rfl) fun taken => ?_
        cases taken with
        | true => exact Hoare.pure (P := Within p) fun _ _ hs => hs
        | false => exact Hoare.pure (P := Without p) fun _ _ hs => hs
      · exact fun _ W _ hs => ⟨hs.1, fun hc => Or.inl (hs.2 hc)⟩
      · cases outcome with
        | ok _ =>
            refine Hoare.bind (R := fun _ => Within p)
              (attribute_rule (P := Within p) hquiet id (by simp [Config.act]) ?_) fun _ =>
                Hoare.pure fun _ _ hs => hs.accurate
            intro w log choice v w' hs hact
            simp only [Config.act, Option.some.injEq, Prod.mk.injEq] at hact
            obtain ⟨-, rfl⟩ := hact
            exact hs
        | error e =>
            dsimp only
            split
            · exact Hoare.throw (P := Without p) fun _ _ hs => hs.accurate
            · exact Hoare.pure (P := Without p) fun _ _ hs => hs.accurate

/-- `release`, in a call that does not acquire. -/
theorem release_sweep (hc : c.acquires = false) {P : World ι × SweepLog ι → Prop}
    [(sweepCtx cfg sem p c).Stable P] :
    Hoare (sweepCtx cfg sem p c) P BoundedSemaphore.release (fun _ => Accurate p)
      fun _ => Accurate p := by
  have hstable : (sweepCtx cfg sem p c).Stable fun W => W.2.asked p = false :=
    sweep_stable fun _ _ hkept h => hkept.asked.trans h
  have haccurate : ∀ W : World ι × SweepLog ι, W.2.asked p = false → Accurate p W :=
    fun W h hreports => absurd (h.symm.trans hreports.1) (by simp)
  refine Hoare.bind (R := fun _ W => W.2.asked p = false)
    (attribute_rule hquiet id (by simp [Config.act]) fun _ _ _ _ _ _ _ =>
      (Function.update_self ..).trans hc) fun inner => ?_
  have hrest : ∀ {x : Py ι Unit}, Code.Within (fun o => o ≠ .innerLock) x →
      Hoare (sweepCtx cfg sem p c) (fun W => W.2.asked p = false) x (fun _ => Accurate p)
        fun _ => Accurate p := by
    intro x hx
    refine (Hoare.within hx ?_).conseq (fun _ _ h => h) (fun _ W _ => haccurate W)
      fun _ W _ => haccurate W
    rintro ⟨w, log⟩ o - hasked ho
    refine ⟨trivial, ?_⟩
    rintro r ⟨w', log'⟩ ⟨-, choice, h⟩
    obtain ⟨-, hlog⟩ := perform_recorded h
    obtain rfl : log' = (SweepLog.note log sem p c w o r).observe sem w' := hlog
    exact (congrFun (SweepLog.asked_note ho r) p).trans hasked
  cases inner with
  | false => exact hrest (.pure ())
  | true =>
      refine hrest (.bind (release_within _ ?_ ?_ ?_ ?_) fun _ => .call ?_)
      all_goals simp

end Operations

/-- Every call of a semaphore whose client has asked for a slot reports accurately. -/
theorem sweeps_verified {cfg : Config ι} {sem : BoundedSemaphore} (hcfg : SharedSlots cfg sem)
    (hquiet : AttributesQuiet cfg) (p : ι) : (sweepNotes cfg sem p).discipline.Verified := by
  rintro q (c : Call) (W : World ι × SweepLog ι) hw hidle ⟨-, -, hrest⟩
  obtain ⟨self, hobject, hmaximum, hname, hdirectory⟩ := hcfg q
  by_cases hq : q = p
  · subst hq
    have hfilename : self.getFilename = sem.getFilename := funext fun n => by
      simp only [BoundedSemaphore.getFilename, hname, hdirectory]
    have hfilenames : self.getFilenames = sem.getFilenames := by
      simp only [BoundedSemaphore.getFilenames, hmaximum, hfilename]
    have hacquire : ∀ timeout checkInterval b, c.acquires = true →
        (sweepCtx cfg sem q c).Safe (self.acquire timeout checkInterval b).toCall
          (fun _ => Accurate q) W := fun _ _ _ hc =>
      Hoare.toCall stable_accurate (acquire_sweep hquiet hfilenames hc _ _ _) hw hrest
    have hrelease : c.acquires = false →
        (sweepCtx cfg sem q c).Safe BoundedSemaphore.release.toCall (fun _ => Accurate q) W :=
      fun hc => Hoare.toCall stable_accurate
        (release_sweep (P := fun W => SlotAtRest q W.1) hquiet hc) hw hrest
    have hsafe : (sweepCtx cfg sem q c).Safe ((cfg.object q).call c) (fun _ => Accurate q) W := by
      rw [hobject]
      cases c with
      | acquire timeout checkInterval failWhenLocked => exact hacquire _ _ _ rfl
      | enter => exact hacquire _ _ _ rfl
      | release | exit => exact hrelease rfl
      | readPid | write | flush =>
          exact fun w' hw' hr => stable_accurate.keep hw hw' hr (hidle rfl)
    exact hsafe.mono fun _ _ _ h _ => h
  · have hstable : ((sweepNotes cfg sem p).discipline.context q c).Stable
        ((sweepNotes cfg sem p).discipline.idle q) :=
      Discipline.idle_isStable (sweepNotes cfg sem p).discipline q c
    refine Context.Safe.of_within (Program.Within.trivial _) ?_ hw hidle
    exact fun _ _ _ _ _ => ⟨trivial, fun _ _ _ h => absurd h hq⟩

/-! ## Whole runs -/

/-- In every run in which nobody lets go of a slot that the sweep of client `p` has
found taken, as long as not all slots have been taken at one moment of its call, a call
of `p` that reports a full semaphore has met such a moment. -/
theorem full_when_reported {cfg : Config ι} {sem : BoundedSemaphore} (hcfg : SharedSlots cfg sem)
    (hquiet : AttributesQuiet cfg) {p : ι}
    {s : ((machine cfg).recorded (sweeps cfg sem)).State}
    (hs : Reach UnclaimedSweeps (sweepUndisturbed cfg sem p) s) (hidle : s.thread p = none)
    (hreports : ReportsFull p s.world) : SweepLog.full s.world.2 p = true := by
  have hstart : ∀ W : World ι × SweepLog ι, UnclaimedSweeps W →
      ((W.1.Wf ∧ SlotsInv sem W.1) ∧ ∀ q, SlotAtRest q W.1) ∧
        (sweepNotes cfg sem p).inv W ∧ ∀ q, (sweepNotes cfg sem p).idle q W := by
    rintro ⟨w, log⟩ ⟨hw, rfl⟩
    refine ⟨⟨⟨hw.wf, hw.slotsInv sem⟩, fun q =>
      ⟨fun k _ _ => hw.unlocked k, fun _ => hw.fh q, fun _ => hw.inner q⟩⟩,
        Or.inr fun path hmem => ?_, fun q _ hreports => ?_⟩
    · simp [SweepLog.empty] at hmem
    · exact absurd hreports.1 (by simp [SweepLog.empty])
  obtain ⟨-, hhold⟩ := Annotation.sound (sweeps_verified hcfg hquiet p)
    (slots_verified hcfg hquiet) hstart (fun _ _ _ _ => trivial) (fun _ _ _ _ _ => trivial) hs
  exact hhold.idle hidle rfl hreports

/-- Three instances of a semaphore with two slots; nothing fails. -/
def passing : Config (Fin 3) where
  object _ := .boundedSemaphore { maximum := 2, name := ['s'], directory := ['d'] }
  mayRaise _ _ _ := false

/-- The semaphore of all three. -/
def passing.sem : BoundedSemaphore := { maximum := 2, name := ['s'], directory := ['d'] }

/-- All is idle, no file exists and nothing has been recorded. -/
def passing.start : ((machine passing).recorded (sweeps passing sem)).State :=
  ⟨(World.empty, .empty), fun _ => none⟩

/-- Two instances take a slot each, the third asks for one once. -/
def passing.asksOnce : List ((machine passing).recorded (sweeps passing sem)).Label :=
  .call 0 (.acquire none none none) :: List.replicate 8 (.op 0 {}) ++
    .call 2 (.acquire none none none) :: List.replicate 14 (.op 2 { ino := 1 }) ++
    .call 1 (.acquire (some 0) none none) :: List.replicate 14 (.op 1 {})

/-- Only handles without a lock are closed. -/
def passing.check (_ : Fin 3) (o : Op (Fin 3)) (W : World (Fin 3) × SweepLog (Fin 3)) : Bool :=
  match o with
  | .unlock _ => false
  | .close h => decide (W.1.lock h = none)
  | _ => true

/-- The call that reports a full semaphore has met the moment at which both slots were
taken. -/
theorem full_when_reported_run :
    ∃ s, runChecked passing.check passing.asksOnce passing.start = some s ∧
      ReportsFull 1 s.world ∧ SweepLog.full s.world.2 1 = true := by
  have hcfg : SharedSlots passing passing.sem := fun _ => ⟨passing.sem, rfl, rfl, rfl, rfl⟩
  have hquiet : AttributesQuiet passing := fun _ _ _ h => by simp [passing] at h
  have hobserve : (runChecked passing.check passing.asksOnce passing.start).map (fun s =>
      ((s.thread 1).map Prod.fst, SweepLog.asked s.world.2 1,
        SweepLog.contended s.world.2 1, (s.world.1 : World (Fin 3)).inner 1)) =
      some (none, true, true, false) := by rfl
  obtain ⟨s, hrun, hs⟩ := Option.map_eq_some_iff.1 hobserve
  obtain ⟨hthread, hs⟩ := Prod.mk.inj hs
  obtain ⟨hasked, hs⟩ := Prod.mk.inj hs
  have hreports : ReportsFull 1 s.world := ⟨hasked, Prod.mk.inj hs⟩
  have hreach : Reach UnclaimedSweeps (sweepUndisturbed passing passing.sem 1) s := by
    refine (Reach.start ⟨empty_unclaimed, rfl⟩).checked (fun _ _ _ => trivial) ?_ hrun
    rintro p c o ⟨w, log⟩ hcheck h (rfl | rfl) hlock
    · simp [passing.check] at hcheck
    · exact absurd (of_decide_eq_true hcheck) hlock
  exact ⟨s, hrun, hreports,
    full_when_reported hcfg hquiet hreach (Option.map_eq_none_iff.1 hthread) hreports⟩

/-- While the first instance has slot 0, the second one finds it taken and the third one
goes on to slot 1.  The first lets go of slot 0, and then the third locks slot 1, which
the second finds taken, too. -/
def passing.labels : List ((machine passing).recorded (sweeps passing sem)).Label :=
  .call 0 (.acquire none none none) :: List.replicate 8 (.op 0 {}) ++
    .call 1 (.acquire (some 0) none none) :: List.replicate 7 (.op 1 {}) ++
    .call 2 (.acquire none none none) :: List.replicate 10 (.op 2 { ino := 1 }) ++
    .call 0 .release :: List.replicate 6 (.op 0 {}) ++
    .op 2 {} :: List.replicate 7 (.op 1 {})

/-- A semaphore is reported full although at no moment of the call all its slots were
taken. -/
theorem reported_full_with_a_slot_free :
    SharedSlots passing passing.sem ∧ AttributesQuiet passing ∧
      ∃ s, Reach UnclaimedSweeps
          (Guard.free ((machine passing).recorded (sweeps passing passing.sem))) s ∧
        s.thread 1 = none ∧ ReportsFull 1 s.world ∧ SweepLog.full s.world.2 1 = false := by
  refine ⟨fun _ => ⟨passing.sem, rfl, rfl, rfl, rfl⟩, fun _ _ _ h => by simp [passing] at h, ?_⟩
  have hobserve : (run passing.labels passing.start).map (fun s =>
      ((s.thread 1).map Prod.fst, SweepLog.full s.world.2 1, SweepLog.asked s.world.2 1,
        SweepLog.contended s.world.2 1, (s.world.1 : World (Fin 3)).inner 1)) =
      some (none, false, true, true, false) := by rfl
  obtain ⟨s, hrun, hs⟩ := Option.map_eq_some_iff.1 hobserve
  obtain ⟨hthread, hs⟩ := Prod.mk.inj hs
  obtain ⟨hfull, hs⟩ := Prod.mk.inj hs
  obtain ⟨hasked, hs⟩ := Prod.mk.inj hs
  exact ⟨s, (Reach.start ⟨empty_unclaimed, rfl⟩).run hrun, Option.map_eq_none_iff.1 hthread,
    ⟨hasked, Prod.mk.inj hs⟩, hfull⟩

end Portalocker
