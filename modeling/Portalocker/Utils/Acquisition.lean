import Portalocker.Utils.Ownership
set_option autoImplicit false
set_option linter.unusedSectionVars false

/-!
# The lock file classes keep the contract

Triples for the code of `TemporaryFileLock` and `PidFileLock` under the contract
of `Utils/Ownership.lean`.  Each assertion says what holds on every way through
the code, and under `clean` what holds when nothing fails.
-/

namespace Portalocker

open Posix Interleaving Interleaving.Machine World Contract

variable {ι : Type} [DecidableEq ι]

section Triples

variable {cfg : Config ι} {hcfg : Separated cfg} {clean : Prop} {g : Guard (machine cfg)}
  {p : ι} {c : Call}

/-- A triple under the ownership contract. -/
abbrev OwnTriple (hcfg : Separated cfg) (clean : Prop) (g : Guard (machine cfg)) (p : ι) (c : Call)
    {α : Type} (P : World ι → Prop) (x : Py ι α) (Q : α → World ι → Prop)
    (E : Exc → World ι → Prop) : Prop :=
  (ownershipContract cfg hcfg clean g).Triple p c P x Q E

/-! ## Assertions -/

/-- The instance's current handle has not been confirmed. -/
def Unconfirmed (p : ι) (h : Handle ι Path) (w : World ι) : Prop :=
  w.fh p = some h ∧ w.confirmed h = false

/-- A new handle on `path` of an instance that has stored none. -/
def Fresh (p : ι) (path : Path) (h : Handle ι Path) (w : World ι) : Prop :=
  w.fh p = none ∧ Opened p h w ∧ h.path = path ∧ h.serial < w.serial p

/-- A new handle that an exception is about to leave behind. -/
def Discarded (clean : Prop) (p : ι) (h : Handle ι Path) (e : Exc) (w : World ι) : Prop :=
  w.fh p = none ∧ h.owner = p ∧ h.serial < w.serial p ∧
    (clean → e.isException = true ∧ Closed p h w)

/-- No handle is stored after an exception. -/
def Empty (clean : Prop) (p : ι) (e : Exc) (w : World ι) : Prop :=
  clean → e.isException = true ∧ w.fh p = none

/-- The stored handle, which is locked when nothing has failed. -/
def Stored (clean : Prop) (p : ι) (h : Handle ι Path) (w : World ι) : Prop :=
  w.fh p = some h ∧ (clean → LockIs p h (some .exclusive) w)

section Stable

variable {K : Contract cfg g}

instance stable_verified (h : Handle ι Path) : (K.ctx p c).Stable fun w => w.Verified p h :=
  stable_of fun hw _ _ hu _ hv => verified_stable hw hu hv

instance stable_settled : (K.ctx p c).Stable (Settled cfg p) :=
  stable_of fun hw _ _ hu _ hs => settled_stable hw hu hs

instance stable_unconfirmed (h : Handle ι Path) : (K.ctx p c).Stable (Unconfirmed p h) :=
  stable_of fun hw _ _ hu _ hv =>
    ⟨hu.fh.trans hv.1,
      (hu.handle h (hw.fh_owner hv.1) (hw.fh_dropped hv.1)).confirmed.trans hv.2⟩

instance stable_held (b : Bool) : (K.ctx p c).Stable fun w => w.held p = b :=
  stable_of fun _ _ _ hu _ h => hu.held.trans h

instance stable_serial (n : Nat) : (K.ctx p c).Stable fun w => n < w.serial p :=
  stable_of fun _ _ _ hu _ h => hu.serial ▸ h

instance stable_fresh (path : Path) (h : Handle ι Path) :
    (K.ctx p c).Stable (Fresh p path h) :=
  inferInstanceAs (Context.Stable _ fun _ => _ ∧ _ ∧ _ ∧ _)

end Stable

instance stable_discarded (h : Handle ι Path) (e : Exc) :
    ((ownershipContract cfg hcfg clean g).ctx p c).Stable (Discarded clean p h e) :=
  inferInstanceAs (Context.Stable _ fun _ => _ ∧ _ ∧ _ ∧ (clean → _ ∧ _))

instance stable_empty (e : Exc) :
    ((ownershipContract cfg hcfg clean g).ctx p c).Stable (Empty clean p e) :=
  inferInstanceAs (Context.Stable _ fun _ => clean → _ ∧ _)

instance stable_stored (h : Handle ι Path) :
    ((ownershipContract cfg hcfg clean g).ctx p c).Stable (Stored clean p h) :=
  inferInstanceAs (Context.Stable _ fun _ => _ ∧ (clean → _))

/-! ## Single operations -/

variable (hclean : clean → Faultless cfg)
include hclean

/-- One operation under the contract; it fails only when the run is not clean. -/
theorem own_rule {o : Op ι} {P : World ι → Prop} {Q : Val o → World ι → Prop}
    {E : Exc → World ι → Prop} [((ownershipContract cfg hcfg clean g).ctx p c).Stable P]
    [∀ v, ((ownershipContract cfg hcfg clean g).ctx p c).Stable (Q v)]
    [∀ e, ((ownershipContract cfg hcfg clean g).ctx p c).Stable (E e)]
    (hpre : ∀ w, w.Wf → Ownership cfg w → (clean → Tidy cfg w) → P w →
      Own p w o ∧ ownershipPre cfg p w o ∧ (clean → tidyPre cfg p w o))
    (hact : ∀ w choice r w', w.Wf → Ownership cfg w → (clean → Tidy cfg w) → P w →
      cfg.act choice p w o = some (r, w') → Ends Q E r w')
    (hfault : ∀ w e, w.Wf → Ownership cfg w → ¬ clean → P w → E e (Config.afterFault w o))
    (hdisk : ∀ w, w.Wf → Ownership cfg w → P w → IsRelease c → Harmless w o := by
      intros; first | trivial | contradiction) :
    OwnTriple hcfg clean g p c P (perform o) Q E := by
  refine perform_rule (fun w hw hi hP => ?_)
    (fun w choice r w' hw hi _ _ hP h => hact w choice r w' hw hi.1 hi.2 hP h) ?_
  · obtain ⟨hown, hpre, htidy⟩ := hpre w hw hi.1 hi.2 hP
    exact ⟨hown, hpre, htidy, hdisk w hw hi.1 hP⟩
  intro w e hw hi hP he
  refine hfault w e hw hi.1 (fun hc => ?_) hP
  simp [hclean hc c o e] at he

/-- Reading the current handle. -/
theorem fh_own {P : World ι → Prop} {E : Exc → World ι → Prop}
    [((ownershipContract cfg hcfg clean g).ctx p c).Stable P]
    [∀ e, ((ownershipContract cfg hcfg clean g).ctx p c).Stable (E e)]
    (hfault : ∀ e w, ¬ clean → E e w) :
    OwnTriple hcfg clean g p c P (perform .fh) (fun v w => w.fh p = v ∧ P w) E := by
  refine own_rule hclean (fun _ _ _ _ _ => ⟨trivial, trivial, fun _ => trivial⟩) ?_
    fun w e _ _ hc _ => hfault e _ hc
  intro w choice r w' _ _ _ hP hact
  simp only [Config.act, Option.some.injEq, Prod.mk.injEq] at hact
  obtain ⟨rfl, rfl⟩ := hact
  exact ⟨rfl, hP⟩

theorem pause_own {o : Op ι} (ho : (∃ timeout, o = .attempts timeout) ∨
      ∃ i checkInterval, o = .sleep i checkInterval) {P : World ι → Prop}
    {E : Exc → World ι → Prop} [((ownershipContract cfg hcfg clean g).ctx p c).Stable P]
    [∀ e, ((ownershipContract cfg hcfg clean g).ctx p c).Stable (E e)]
    (hfault : ∀ w e, ¬ clean → P w → E e w) :
    OwnTriple hcfg clean g p c P (perform o) (fun _ => P) E := by
  refine pause_rule ho ?_ ?_
  · intro w
    rcases ho with ⟨timeout, rfl⟩ | ⟨i, checkInterval, rfl⟩ <;>
      exact ⟨trivial, fun _ => trivial, fun _ => trivial⟩
  · intro w e hP he
    refine hfault w e (fun hc => ?_) hP
    simp [hclean hc c o e] at he

omit hclean in
/-- What follows a failure is only proved for runs with failures. -/
theorem unclean_rule {α : Type} {x : Py ι α} {Q : α → World ι → Prop} {E : Exc → World ι → Prop}
    (h : ¬ clean → OwnTriple hcfg clean g p c (fun _ => True) x Q E) :
    OwnTriple hcfg clean g p c (fun _ => ¬ clean) x Q E :=
  (Hoare.of_fact h).of_pre fun _ _ hc => ⟨hc, trivial⟩

omit [DecidableEq ι] hclean in
/-- An exception that leaves a new handle behind. -/
theorem discarded_of_fresh {path : Path} {h : Handle ι Path} {e : Exc} {w : World ι}
    (hc : ¬ clean) (hs : Fresh p path h w) : Discarded clean p h e w :=
  ⟨hs.1, hs.2.1.1, hs.2.2.2, fun hclean => absurd hclean hc⟩

/-- Opening the lock file. -/
theorem openLock_own (hcall : ¬ IsRelease c) {path : Path} (hpath : (cfg.object p).lockPath = some path) :
    OwnTriple hcfg clean g p c (fun w => w.fh p = none) (perform (.openFile path .append))
      (fun h => Fresh p path h) (Empty clean p) := by
  refine own_rule hclean ?_ ?_ fun w e _ _ hc _ hclean => absurd hclean hc
  · exact fun w _ _ _ _ =>
      ⟨by simp [Own], Or.inl hpath, fun _ hpid => absurd hpath (hcfg.apart hpid)⟩
  · intro w choice r w' hw _ _ hfh hact
    have hfresh : ∀ i (w₁ : World ι), w₁.Wf → w₁.fh = w.fh →
        Fresh p path (w₁.handle p path i) (w₁.openAt p path i) := by
      intro i w₁ hw₁ hfh₁
      have hundropped : w₁.dropped (w₁.handle p path i) = false :=
        Bool.eq_false_iff.2 fun hd => absurd (hw₁.dropped_serial hd) (by simp)
      exact ⟨by rw [openAt_fh, hfh₁]; exact hfh, ⟨rfl, hundropped, by simp⟩, rfl, by simp⟩
    simp only [Config.act] at hact
    split at hact
    · simp only [Option.some.injEq, Prod.mk.injEq] at hact
      obtain ⟨rfl, rfl⟩ := hact
      exact hfresh _ w hw rfl
    · simp only [Option.ite_none_right_eq_some, Option.some.injEq, Prod.mk.injEq] at hact
      obtain ⟨hnew, rfl, rfl⟩ := hact
      exact hfresh _ _ ⟨hw.fs.create ‹_› hnew, hw.fh_owner, hw.fh_serial, hw.fh_dropped,
        hw.dropped_serial⟩ rfl

theorem flock_own {path : Path} (h : Handle ι Path) :
    OwnTriple hcfg clean g p c (Fresh p path h) (perform (.flock h .lockMethod))
      (fun _ w => Fresh p path h w ∧ LockIs p h (some .exclusive) w)
      (fun e w => Fresh p path h w ∧ (clean → e = .osError .EAGAIN)) := by
  refine own_rule hclean (fun w _ _ _ hs => ⟨hs.2.1.1, rfl, fun _ => trivial⟩) ?_
    fun w e _ _ hc hs => ⟨hs, fun h => absurd h hc⟩
  rintro w choice r w' _ _ _ ⟨hfh, ⟨ho, hd, hopen⟩, hpath, hserial⟩ hact
  simp only [Config.act, Config.onOpen, if_pos hopen, LockFlags.mode, LockFlags.lockMethod,
    if_true] at hact
  split at hact
  · simp only [Option.some.injEq, Prod.mk.injEq] at hact
    obtain ⟨rfl, rfl⟩ := hact
    exact ⟨⟨hfh, ⟨ho, hd, hopen⟩, hpath, hserial⟩, fun _ => rfl⟩
  · simp only [Option.some.injEq, Prod.mk.injEq] at hact
    obtain ⟨rfl, rfl⟩ := hact
    exact ⟨⟨hfh, ⟨ho, hd, hopen⟩, hpath, hserial⟩, ho, hd, by simp⟩

omit hclean in
/-- Closing a lock file through a handle that is not confirmed. -/
theorem closeLock_pre {w : World ι} {h : Handle ι Path} (hi : Ownership cfg w)
    (hpath : (cfg.object h.owner).lockPath = some h.path) (hconf : w.confirmed h = false) :
    tidyPre cfg p w (.close h) :=
  ⟨hconf, Or.inl (by rw [hi.buffer hpath, List.append_nil])⟩

theorem closeFresh_own {path : Path} (hpath : (cfg.object p).lockPath = some path)
    (h : Handle ι Path) :
    OwnTriple hcfg clean g p c (Fresh p path h) (perform (.close h))
      (fun _ w => w.fh p = none ∧ Closed p h w)
      (fun _ w => ¬ clean ∧ w.fh p = none ∧ Closed p h w) := by
  have hclosed : ∀ {w : World ι} (content : List UInt8), Fresh p path h w →
      w.fh p = none ∧ Closed p h ((w.store h content []).discard h) := by
    rintro w content ⟨hfh, ⟨ho, hd, hopen⟩, -, hserial⟩
    exact ⟨hfh, ho, hd, hserial, by simp⟩
  refine own_rule hclean ?_ ?_ ?_ ?_
  · rintro w hw hi ht ⟨hfh, ⟨ho, hd, hopen⟩, rfl, -⟩
    refine ⟨ho, trivial, fun hc => closeLock_pre hi (ho ▸ hpath) ?_⟩
    refine Bool.eq_false_iff.2 fun hconf => ?_
    have hcur := hi.current hconf hd
    rw [ho, hfh] at hcur
    cases hcur
  · intro w choice r w' _ _ _ hs hact
    simp only [Config.act, if_pos hs.2.1.2.2, Option.some.injEq, Prod.mk.injEq] at hact
    obtain ⟨rfl, rfl⟩ := hact
    exact hclosed _ hs
  · intro w e _ _ hc hs
    simp only [Config.afterFault, if_pos hs.2.1.2.2]
    exact ⟨hc, hclosed _ hs⟩
  · rintro w - hi ⟨-, ⟨ho, -, -⟩, rfl, -⟩ -
    exact hi.buffer (ho ▸ hpath)

theorem prepareFh_own (hcall : ¬ IsRelease c) {path : Path} (hpath : (cfg.object p).lockPath = some path) (self : Lock)
    (h : Handle ι Path) :
    OwnTriple hcfg clean g p c (fun w => Fresh p path h w ∧ LockIs p h (some .exclusive) w)
      (self.prepareFh h) (fun _ w => Fresh p path h w ∧ LockIs p h (some .exclusive) w)
      (Discarded clean p h) := by
  -- a lock file is nobody's pid file, so anything may be stored in it
  have hmay : ∀ {w : World ι}, Tidy cfg w → Fresh p path h w → ∀ content, MayStore cfg p w h content := by
    rintro w ht ⟨-, ⟨ho, -, hopen⟩, rfl, -⟩ content
    exact Or.inr (Or.inl (ht.lock_opened hopen (ho ▸ hpath)))
  have hstored : ∀ {w : World ι} {content f}, Fresh p path h w ∧ LockIs p h (some .exclusive) w →
      Fresh p path h ((w.store h content []).record h f) ∧
        LockIs p h (some .exclusive) ((w.store h content []).record h f) := by
    rintro w content f ⟨⟨hfh, hopen, hp⟩, hlock⟩
    exact ⟨⟨hfh, hopen, hp⟩, hlock⟩
  unfold Lock.prepareFh
  split
  · refine Hoare.bind (R := fun _ w => Fresh p path h w ∧ LockIs p h (some .exclusive) w) ?_
      fun _ => ?_
    · refine own_rule hclean (fun w _ _ ht hs => ⟨hs.1.2.1.1, trivial, fun hc =>
        hmay (ht hc) hs.1 _⟩) ?_ fun w e _ _ hc hs => discarded_of_fresh hc hs.1
      intro w choice r w' _ _ _ hs hact
      simp only [Config.act, Config.onOpen, if_pos hs.1.2.1.2.2, Option.some.injEq,
        Prod.mk.injEq] at hact
      obtain ⟨rfl, rfl⟩ := hact
      exact hs
    · refine own_rule hclean (fun w _ _ ht hs => ⟨hs.1.2.1.1, trivial, fun hc =>
        hmay (ht hc) hs.1 _⟩) ?_ fun w e _ _ hc hs => discarded_of_fresh hc hs.1
      intro w choice r w' _ _ _ hs hact
      simp only [Config.act, Config.onOpen, if_pos hs.1.2.1.2.2, Option.some.injEq,
        Prod.mk.injEq] at hact
      obtain ⟨rfl, rfl⟩ := hact
      exact hstored hs
  · exact Hoare.pure fun w _ hs => hs

theorem setFh_own {path : Path} (hpath : (cfg.object p).lockPath = some path)
    (h : Handle ι Path) :
    OwnTriple hcfg clean g p c (fun w => Fresh p path h w ∧ LockIs p h (some .exclusive) w)
      (perform (.setFh (some h))) (fun _ => Stored clean p h) (Discarded clean p h) := by
  refine own_rule hclean ?_ ?_ ?_
  · rintro w _ _ _ ⟨⟨hfh, ⟨ho, hd, hopen⟩, rfl, -⟩, -⟩
    refine ⟨fun k hk => Option.some.inj hk ▸ ⟨ho, hopen, hd⟩, ⟨?_, ?_⟩, fun _ => trivial⟩
    · intro k hk
      rw [hfh] at hk
      cases hk
    · exact fun k hk => Option.some.inj hk ▸ hpath
  · rintro w choice r w' _ _ _ ⟨-, hlock⟩ hact
    simp only [Config.act, Option.some.injEq, Prod.mk.injEq] at hact
    obtain ⟨rfl, rfl⟩ := hact
    exact ⟨by simp, fun _ => hlock⟩
  · exact fun w e _ _ hc hs => discarded_of_fresh hc hs.1

theorem dropLock_own (h : Handle ι Path) (e : Exc) :
    OwnTriple hcfg clean g p c (Discarded clean p h e) (perform (.drop h))
      (fun _ => Empty clean p e) (Empty clean p) := by
  refine own_rule hclean ?_ ?_ fun w e _ _ hc _ h => absurd h hc
  · rintro w _ _ _ ⟨hfh, ho, hserial, hclosed⟩
    exact ⟨⟨ho, hserial, by simp [hfh]⟩, trivial, fun hc => (hclosed hc).2.2.2.2⟩
  · rintro w choice r w' _ _ _ ⟨hfh, -, -, hclosed⟩ hact
    simp only [Config.act, Option.some.injEq, Prod.mk.injEq] at hact
    obtain ⟨rfl, rfl⟩ := hact
    exact fun hc => ⟨(hclosed hc).1, hfh⟩

theorem acquireOpened_own (hcall : ¬ IsRelease c) {self : Lock} (hflags : self.flags = .lockMethod)
    (hpath : (cfg.object p).lockPath = some self.filename) (timeout checkInterval : Rat) (b : Bool)
    (h : Handle ι Path) :
    OwnTriple hcfg clean g p c (Fresh p self.filename h)
      (self.acquireOpened timeout checkInterval b h) (fun h => Stored clean p h)
      (Empty clean p) := by
  refine acquireOpened_rule (N := Fresh p self.filename h)
    (L := fun w => Fresh p self.filename h w ∧ LockIs p h (some .exclusive) w)
    (T := fun e w => (clean → e = .alreadyLocked) ∧ Fresh p self.filename h w)
    (G := fun e w => (clean → e = .alreadyLocked) ∧ w.fh p = none ∧ Closed p h w)
    (D := Discarded clean p h) ?_ ?_ ?_ ?_ (fun _ _ _ _ ht => ht.2) ?_ ?_
    (prepareFh_own hclean hcall hpath self h) (setFh_own hclean hpath h) (dropLock_own hclean h)
  · rw [hflags]
    refine posixLock_rule (flock_own hclean h) ?_
    rintro e w _ ⟨hs, he⟩
    exact ⟨fun hc => by rw [he hc]; rfl, hs⟩
  · intro e
    refine Hoare.of_fact fun he => (closeFresh_own hclean hpath h).conseq (fun _ _ hs => hs)
      (fun _ _ _ hs => ⟨he, hs⟩) ?_
    rintro e' w _ ⟨hc, hfh, hclosed⟩
    unfold Caught
    split
    · exact ⟨he, hfh, hclosed⟩
    · exact ⟨hfh, hclosed.1, hclosed.2.2.1, fun h => absurd h hc⟩
  · rintro e e' w _ hrep ⟨he, hfh, hclosed⟩
    refine ⟨hfh, hclosed.1, hclosed.2.2.1, fun hc => ⟨?_, hclosed⟩⟩
    simp only [he hc, Reports, Exc.isLockException, if_true, or_self] at hrep
    rw [hrep]
    rfl
  · rintro e w _ he ⟨heq, hs⟩
    refine discarded_of_fresh (fun hc => ?_) hs
    rw [heq hc] at he
    cases he
  · exact fun e _ => pause_own hclean (Or.inl ⟨_, rfl⟩) fun w e' hc hs => discarded_of_fresh hc hs.2
  · exact fun i e _ => pause_own hclean (Or.inr ⟨_, _, rfl⟩) fun w e' hc hs =>
      discarded_of_fresh hc hs.2

/-- `Lock.acquire` on an instance that holds nothing or is verified. -/
theorem lockAcquire_own (hcall : ¬ IsRelease c) {self : Lock} (hflags : self.flags = .lockMethod)
    (hmode : openKind self.mode = some .append)
    (hpath : (cfg.object p).lockPath = some self.filename) (timeout checkInterval : Option Rat)
    (b : Option Bool) :
    OwnTriple hcfg clean g p c (fun w => clean → w.fh p = none ∨ ∃ h, w.Verified p h)
      (self.acquire timeout checkInterval b) (fun h => Stored clean p h) (Empty clean p) := by
  refine Hoare.bind (fh_own hclean fun e w hc h => absurd h hc) ?_
  intro v
  cases v with
  | none =>
      refine Hoare.bind (R := fun h => Fresh p self.filename h) ?_ fun h =>
        acquireOpened_own hclean hcall hflags hpath _ _ _ h
      simp only [Lock.getFh, hmode]
      exact (openLock_own hclean hcall hpath).of_pre fun w _ hs => hs.1
  | some h =>
      refine Hoare.pure ?_
      rintro w ⟨hw, hi, -⟩ ⟨hfh, hrest⟩
      refine ⟨hfh, fun hc => ?_⟩
      rcases hrest hc with hnone | ⟨k, hk⟩
      · rw [hfh] at hnone
        cases hnone
      · obtain rfl : h = k := Option.some.inj (hfh.symm.trans hk.1)
        exact ⟨hw.fh_owner hfh, hw.fh_dropped hfh, (hi.owns hk.2).2⟩

/-! ## Release -/

/-- A stored handle that is about to be released; when nothing fails it is not
confirmed any more. -/
def Releasing (clean : Prop) (p : ι) (b : Bool) (h : Handle ι Path) (w : World ι) : Prop :=
  w.fh p = some h ∧ w.inner p = b ∧ (clean → Unconfirmed p h w)

/-- A stored handle that has been closed. -/
def Spent (p : ι) (b : Bool) (h : Handle ι Path) (w : World ι) : Prop :=
  Unconfirmed p h w ∧ w.inner p = b

omit hclean in
instance stable_releasing (b : Bool) (h : Handle ι Path) :
    ((ownershipContract cfg hcfg clean g).ctx p c).Stable (Releasing clean p b h) :=
  inferInstanceAs (Context.Stable _ fun _ => _ ∧ _ ∧ (clean → _))

omit hclean in
instance stable_spent (b : Bool) (h : Handle ι Path) :
    ((ownershipContract cfg hcfg clean g).ctx p c).Stable (Spent p b h) :=
  inferInstanceAs (Context.Stable _ fun _ => _ ∧ _)

theorem unlock_own (b : Bool) (h : Handle ι Path) :
    OwnTriple hcfg clean g p c (Releasing clean p b h) (perform (.unlock h))
      (fun _ => Releasing clean p b h)
      (Caught (Releasing clean p b h) fun _ w => ¬ clean ∧ Releasing clean p b h w) := by
  refine own_rule hclean
    (fun w hw _ _ hs => ⟨hw.fh_owner hs.1, trivial, fun hc => (hs.2.2 hc).2⟩) ?_ ?_
  · rintro w choice r w' _ _ _ hs hact
    simp only [Config.act] at hact
    rcases Config.onOpen_cases hact with ⟨-, hact⟩ | ⟨rfl, rfl⟩
    · simp only [Option.some.injEq, Prod.mk.injEq] at hact
      obtain ⟨rfl, rfl⟩ := hact
      exact ⟨hs.1, hs.2.1, fun _ => ⟨hs.1, by simp⟩⟩
    · exact hs
  · intro w e _ _ hc hs
    unfold Caught
    split
    · exact hs
    · exact ⟨hc, hs⟩

theorem close_own (b : Bool) (h : Handle ι Path) :
    OwnTriple hcfg clean g p c (Releasing clean p b h) (perform (.close h))
      (fun _ => Spent p b h) (fun _ w => ¬ clean ∧ Spent p b h w) := by
  -- a closed handle has no lock, so it is not confirmed
  have hclosed : ∀ {w : World ι}, w.Wf → Ownership cfg w → h ∉ w.opened →
      w.confirmed h = false := by
    intro w hw hi hmem
    refine Bool.eq_false_iff.2 fun hconf => ?_
    have hl := (hi.owns hconf).2
    rw [hw.fs.lock_open hmem] at hl
    cases hl
  refine own_rule hclean ?_ ?_ ?_ ?_
  · intro w hw hi _ hs
    refine ⟨hw.fh_owner hs.1, trivial, fun hc => closeLock_pre hi ?_ (hs.2.2 hc).2⟩
    rw [hw.fh_owner hs.1]
    exact hi.path hs.1
  · intro w choice r w' hw hi _ hs hact
    simp only [Config.act] at hact
    split at hact <;>
      (simp only [Option.some.injEq, Prod.mk.injEq] at hact; obtain ⟨rfl, rfl⟩ := hact)
    · exact ⟨⟨hs.1, by simp⟩, hs.2.1⟩
    · exact ⟨⟨hs.1, hclosed hw hi ‹_›⟩, hs.2.1⟩
  · intro w e hw hi hc hs
    refine ⟨hc, ?_⟩
    simp only [Config.afterFault]
    split
    · exact ⟨⟨hs.1, by simp⟩, hs.2.1⟩
    · exact ⟨⟨hs.1, hclosed hw hi ‹_›⟩, hs.2.1⟩
  · intro w hw hi hs _
    exact hi.buffer (by rw [hw.fh_owner hs.1]; exact hi.path hs.1)

theorem forget_own (b : Bool) (h : Handle ι Path) :
    OwnTriple hcfg clean g p c (Spent p b h) (perform (.setFh none))
      (fun _ w => w.fh p = none ∧ w.inner p = b) (fun _ _ => ¬ clean) := by
  refine own_rule hclean ?_ ?_ fun w e _ _ hc _ => hc
  · rintro w _ _ _ ⟨⟨hfh, hconf⟩, -⟩
    refine ⟨fun k hk => by simp at hk, ⟨fun k hk => Or.inr ?_, fun k hk => by simp at hk⟩,
      fun _ => trivial⟩
    obtain rfl : h = k := Option.some.inj (hfh.symm.trans hk)
    exact hconf
  · intro w choice r w' _ _ _ hs hact
    simp only [Config.act, Option.some.injEq, Prod.mk.injEq] at hact
    obtain ⟨rfl, rfl⟩ := hact
    exact ⟨Function.update_self .., hs.2⟩

/-- `Lock.release`: afterwards nothing is stored, and only an interrupt leaves
it. -/
theorem releaseKeeping_own {self : Lock} (hself : self.raiseOnReleaseError = false) (b : Bool) :
    OwnTriple hcfg clean g p c
      (fun w => w.inner p = b ∧ (clean → w.fh p = none ∨ ∃ h, Unconfirmed p h w)) self.release
      (fun _ w => w.inner p = b ∧ (clean → w.fh p = none)) (fun _ _ => ¬ clean) := by
  refine release_rule (I := fun _ => ¬ clean) (Z := fun w => w.inner p = b ∧ (clean → w.fh p = none))
    (R := fun h => Releasing clean p b h) (U := fun h => Releasing clean p b h)
    (V := fun h => Spent p b h) ?_ (unlock_own hclean b) ?_ ?_
    (fun h => absurd (hself.symm.trans h) (by simp)) fun _ _ _ hc _ => hc
  · refine (fh_own hclean fun e w hc => hc).of_post ?_
    rintro v w - ⟨rfl, hb, hs⟩
    cases hfh : w.fh p with
    | none => exact ⟨hb, fun _ => hfh⟩
    | some h =>
        refine ⟨hfh, hb, fun hc => ?_⟩
        rcases hs hc with hnone | ⟨k, hk⟩
        · exact absurd (hfh.symm.trans hnone) (by simp)
        · obtain rfl : h = k := Option.some.inj (hfh.symm.trans hk.1)
          exact hk
  · intro h
    refine (close_own hclean b h).conseq (fun _ _ hs => hs) (fun _ _ _ hs => hs) ?_
    rintro e w _ ⟨hc, hs⟩
    unfold Caught
    split
    · exact hs
    · exact hc
  · exact fun h => (forget_own hclean b h).of_post fun _ _ _ hs => ⟨hs.2, fun _ => hs.1⟩

theorem lockRelease_own {self : Lock} (hself : self.raiseOnReleaseError = false) :
    OwnTriple hcfg clean g p c (fun w => clean → w.fh p = none ∨ ∃ h, Unconfirmed p h w)
      self.release (fun _ w => clean → w.fh p = none) (fun _ _ => ¬ clean) := by
  intro w hw hs
  have hkeeping : OwnTriple hcfg clean g p c (fun w' => w' = w) self.release
      (fun _ w => clean → w.fh p = none) (fun _ _ => ¬ clean) := by
    refine (releaseKeeping_own hclean hself (w.inner p)).conseq ?_ (fun _ _ _ h => h.2)
      fun _ _ _ h => h
    rintro w' - rfl
    exact ⟨rfl, hs⟩
  exact hkeeping w hw rfl

/-! ## The inode comparison -/

/-- What the comparison has found out about the stored handle. -/
def Compared (p : ι) (h : Handle ι Path) (matching : Bool) (w : World ι) : Prop :=
  if matching then w.Verified p h else Unconfirmed p h w

omit hclean in
instance stable_compared (h : Handle ι Path) (b : Bool) :
    ((ownershipContract cfg hcfg clean g).ctx p c).Stable (Compared p h b) := by
  cases b
  · exact stable_unconfirmed h
  · exact stable_verified h

theorem fstat_own (h : Handle ι Path) :
    OwnTriple hcfg clean g p c (Stored clean p h) (perform (.fstat h))
      (fun i w => i = h.ino ∧ Stored clean p h w) (fun _ w => ¬ clean ∧ Stored clean p h w) := by
  refine own_rule hclean (fun w _ _ _ _ => ⟨trivial, trivial, fun _ => trivial⟩) ?_
    fun w e _ _ hc hs => ⟨hc, hs⟩
  intro w choice r w' hw _ _ hs hact
  -- a locked handle is open
  have hopen : clean → h ∈ w.opened := fun hc => hw.fs.opened_of_lock (hs.2 hc).2.2
  simp only [Config.act, Config.onOpen] at hact
  split at hact
  · simp only [Option.some.injEq, Prod.mk.injEq] at hact
    obtain ⟨rfl, rfl⟩ := hact
    exact ⟨rfl, hs⟩
  · simp only [Option.some.injEq, Prod.mk.injEq] at hact
    obtain ⟨rfl, rfl⟩ := hact
    exact ⟨fun hc => absurd (hopen hc) ‹_›, hs⟩

theorem stat_own {path : Path} (hpath : (cfg.object p).lockPath = some path)
    (h : Handle ι Path) :
    OwnTriple hcfg clean g p c (Stored clean p h) (perform (.stat path))
      (fun i w => w.fh p = some h ∧ (clean → Compared p h (h.ino == i) w))
      (fun e w => w.fh p = some h ∧ (clean → e = .osError .ENOENT ∧ Compared p h false w)) := by
  refine own_rule hclean (fun w _ _ _ _ => ⟨trivial, trivial, fun _ => trivial⟩) ?_
    fun w e _ _ hc hs => ⟨hs.1, fun h => absurd h hc⟩
  rintro w choice r w' hw hi _ ⟨hfh, hlock⟩ hact
  have hname : h.path = path := Option.some.inj ((hi.path hfh).symm.trans hpath)
  -- a confirmed handle is on the inode its path names
  have hnames : ∀ {v}, w.names path = v → v ≠ some h.ino → w.confirmed h = false := by
    rintro v rfl hne
    refine Bool.eq_false_iff.2 fun hconf => hne ?_
    exact hname ▸ (hi.owns hconf).1
  simp only [Config.act] at hact
  split at hact
  · rename_i i hn
    simp only [Option.some.injEq, Prod.mk.injEq] at hact
    obtain ⟨rfl, rfl⟩ := hact
    refine ⟨hfh, fun hc => ?_⟩
    by_cases hino : h.ino = i
    · have hmatch : w.Matches p path i h := ⟨hfh, hname, hino, by simp [(hlock hc).2.2]⟩
      rw [beq_iff_eq.2 hino]
      exact ⟨hfh, by simp [hmatch]⟩
    · have hconf := hnames hn fun heq => hino (Option.some.inj heq).symm
      have hmatch : ¬ w.Matches p path i h := fun hm => hino hm.2.2.1
      rw [beq_eq_false_iff_ne.2 hino]
      exact ⟨hfh, by simp [hmatch, hconf]⟩
  · rename_i hn
    simp only [Option.some.injEq, Prod.mk.injEq] at hact
    obtain ⟨rfl, rfl⟩ := hact
    exact ⟨hfh, fun _ => ⟨rfl, hfh, hnames hn (by simp)⟩⟩

/-- `_fh_matches_path`: a handle that still names its path is verified now. -/
theorem fhMatchesPath_own {path : Path} (hpath : (cfg.object p).lockPath = some path)
    (h : Handle ι Path) :
    OwnTriple hcfg clean g p c (Stored clean p h) (fhMatchesPath h path)
      (fun b w => w.fh p = some h ∧ (clean → Compared p h b w)) (fun _ _ => ¬ clean) := by
  refine Hoare.tryCatch (F := fun e w => w.fh p = some h ∧
    (clean → e = .osError .ENOENT ∧ Compared p h false w)) ?_ ?_
  · refine Hoare.bind ((fstat_own hclean h).conseq (fun _ _ hs => hs) (fun _ _ _ hs => hs)
      fun e w _ hs => ⟨hs.2.1, fun hc => absurd hc hs.1⟩) fun i => ?_
    refine Hoare.of_fact fun hi => ?_
    subst hi
    exact Hoare.bind (stat_own hclean hpath h) fun j => Hoare.pure fun w _ hs => hs
  · intro e
    by_cases he : e = .osError .ENOENT
    · subst he
      exact Hoare.pure fun w _ hs => ⟨hs.1, fun hc => (hs.2 hc).2⟩
    · have : e.isFileNotFound = false := by simpa [Exc.isFileNotFound] using he
      simp only [this, if_false, Bool.false_eq_true]
      exact Hoare.throw fun w _ hs hc => he (hs.2 hc).1

/-! ## `TemporaryFileLock` -/

/-- `_acquire_verified`. -/
theorem acquireVerified_own (hcall : ¬ IsRelease c) {self : Lock} (hflags : self.flags = .lockMethod)
    (hself : self.raiseOnReleaseError = false) (hmode : openKind self.mode = some .append)
    (hpath : (cfg.object p).lockPath = some self.filename) (timeout checkInterval : Option Rat)
    (b : Option Bool) :
    OwnTriple hcfg clean g p c (fun w => clean → w.fh p = none ∨ ∃ h, w.Verified p h)
      (TemporaryFileLock.acquireVerified self self.filename timeout checkInterval b)
      (fun h w => w.fh p = some h ∧ (clean → w.Verified p h)) (Empty clean p) := by
  refine Hoare.bind (timeoutGenerator_rule
    (Q := fun h w => w.fh p = some h ∧ (clean → w.Verified p h)) (F := Empty clean p) ?_
    (fun e w _ he hc => Or.inl (he hc).2)
    (fun e => pause_own hclean (Or.inl ⟨_, rfl⟩) fun w e' hc _ h => absurd h hc)
    fun i e => pause_own hclean (Or.inr ⟨_, _, rfl⟩) fun w e' hc _ h => absurd h hc) ?_
  · refine Hoare.bind (lockAcquire_own hclean hcall hflags hmode hpath timeout checkInterval b)
      fun h => ?_
    refine Hoare.bind ((fhMatchesPath_own hclean hpath h).conseq (fun _ _ hs => hs)
      (fun _ _ _ hs => hs) fun e w _ hc h => absurd h hc) fun matching => ?_
    cases matching with
    | true => exact Hoare.pure fun w _ hs => hs
    | false =>
        have hrelease : OwnTriple hcfg clean g p c
            (fun w => w.fh p = some h ∧ (clean → Compared p h false w)) self.release
            (fun _ => Empty clean p .alreadyLocked) (Empty clean p) :=
          (lockRelease_own hclean hself).conseq (fun w _ hs hc => Or.inr ⟨h, hs.2 hc⟩)
            (fun _ w _ hs hc => ⟨rfl, hs hc⟩) fun e w _ hc h => absurd h hc
        exact Hoare.bind hrelease fun _ => Hoare.pure fun w _ hs => hs
  · intro outcome
    cases outcome with
    | ok h => exact Hoare.pure fun w _ hs => hs
    | error e => exact Hoare.throw fun w _ hs => hs

theorem acquired_own (h : Handle ι Path) :
    OwnTriple hcfg clean g p c (fun w => clean → w.Verified p h) (perform .acquired)
      (fun _ w => clean → w.Verified p h ∧ w.held p = true) (fun _ _ => ¬ clean) := by
  refine own_rule hclean (fun w _ _ _ hs => ⟨trivial, trivial, fun hc => ⟨h, hs hc⟩⟩) ?_
    fun w e _ _ hc _ => hc
  intro w choice r w' _ _ _ hs hact
  simp only [Config.act, Option.some.injEq, Prod.mk.injEq] at hact
  obtain ⟨rfl, rfl⟩ := hact
  exact fun hc => ⟨hs hc, Function.update_self ..⟩

variable {self : TemporaryFileLock} (hobject : cfg.object p = .temporaryFileLock self)
include hobject

theorem TemporaryFileLock.acquire_own (hcall : ¬ IsRelease c)
    (hflags : self.flags = .lockMethod)
    (timeout checkInterval : Option Rat) (b : Option Bool) :
    OwnTriple hcfg clean g p c ((ownershipContract cfg hcfg clean g).idle p)
      (self.acquire timeout checkInterval b)
      (fun _ => (ownershipContract cfg hcfg clean g).idle p)
      (fun _ => (ownershipContract cfg hcfg clean g).idle p) := by
  have hpath : (cfg.object p).lockPath = some self.toLock.filename := by rw [hobject]; rfl
  refine Hoare.bind ((acquireVerified_own hclean hcall hflags rfl rfl hpath timeout checkInterval
      b).conseq
    ?_ (fun _ _ _ hs => hs) ?_) fun h => ?_
  · exact fun w _ hidle hc => (hidle hc).imp And.left fun ⟨h, hv, _⟩ => ⟨h, hv⟩
  · exact fun e w _ he hc => Or.inl ⟨(he hc).2, by simp [hobject, Instance.pidPath]⟩
  · refine Hoare.bind ((acquired_own hclean h).conseq (fun _ _ hs => hs.2) (fun _ _ _ hs => hs)
      fun e w _ hc h => absurd h hc) fun _ => ?_
    exact Hoare.pure fun w _ hs hc => Or.inr ⟨h, hs hc⟩

omit hobject in
/-- `os.unlink` of the own lock path by a verified instance. -/
theorem unlinkLock_own {path : Path} (hpath : (cfg.object p).lockPath = some path)
    (h : Handle ι Path) :
    OwnTriple hcfg clean g p c
      (fun w => w.Verified p h ∧
        (clean → ∀ pid, (cfg.object p).pidPath = some pid → w.names pid = none))
      (unlinkIfPresent path) (fun _ w => clean → Unconfirmed p h w) (fun _ _ => ¬ clean) := by
  have : ((ownershipContract cfg hcfg clean g).ctx p c).Stable fun w => w.Verified p h ∧
      (clean → ∀ pid, (cfg.object p).pidPath = some pid → w.names pid = none) := by
    refine stable_of ?_
    rintro w w' hw - - hu hr ⟨hv, hnone⟩
    refine ⟨verified_stable hw hu hv, fun hc pid hpid => ?_⟩
    rw [(hr hc).1 h pid (hw.fh_owner hv.1) (hw.fh_dropped hv.1) hv hpid]
    exact hnone hc pid hpid
  refine Hoare.suppress (F := fun _ _ => ¬ clean) (own_rule hclean ?_ ?_ fun w e _ _ hc _ => hc)
    (fun e w _ _ hc h => absurd h hc) fun e w _ _ hc => hc
  · exact fun w _ _ _ hs => ⟨trivial, ⟨⟨h, hs.1⟩, Or.inl hpath⟩, fun hc _ => hs.2 hc⟩
  · rintro w choice r w' hw hi _ ⟨⟨hfh, hconf⟩, -⟩ hact
    have hname : h.path = path := Option.some.inj ((hi.path hfh).symm.trans hpath)
    have hn : w.names path = some h.ino := hname ▸ (hi.owns hconf).1
    simp only [Config.act, hn, Option.some.injEq, Prod.mk.injEq] at hact
    obtain ⟨rfl, rfl⟩ := hact
    exact fun _ => ⟨hfh, by simp [hname, hw.fh_owner hfh]⟩

theorem TemporaryFileLock.release_own :
    OwnTriple hcfg clean g p c (Settled cfg p) self.release
      (fun _ => (ownershipContract cfg hcfg clean g).idle p)
      (fun _ => (ownershipContract cfg hcfg clean g).idle p) := by
  have hpath : (cfg.object p).lockPath = some self.filename := by rw [hobject]; rfl
  have hpid : (cfg.object p).pidPath = none := by rw [hobject]; rfl
  refine Hoare.bind (R := fun v w => (v = none ∧ w.fh p = none) ∨ ∃ h, v = some h ∧ w.Verified p h)
    ((fh_own hclean (E := fun _ _ => ¬ clean) fun e w hc => hc).conseq (fun _ _ hs => hs) ?_
      fun e w _ hc h => absurd h hc) fun v => ?_
  · rintro v w - ⟨rfl, hs⟩
    simp only [Settled, hpid] at hs
    rcases hs with hnone | ⟨h, hv⟩
    · exact Or.inl ⟨hnone, hnone⟩
    · exact Or.inr ⟨h, hv.1, hv⟩
  · cases v with
    | none =>
        refine Hoare.pure ?_
        rintro w - (⟨-, hnone⟩ | ⟨h, heq, -⟩) hc
        · exact Or.inl ⟨hnone, by simp [hpid]⟩
        · simp at heq
    | some h =>
        refine Hoare.bind (R := fun _ w => clean → w.fh p = none)
          (Hoare.conseq (Hoare.withFinally (R := fun _ w => clean → Unconfirmed p h w)
            (F := fun _ _ => ¬ clean) (Q := fun _ w => clean → w.fh p = none)
            (E := fun _ _ => ¬ clean) (unlinkLock_own hclean hpath h) (fun _ => ?_) fun e => ?_)
            ?_ (fun _ _ _ hs => hs) fun e w _ hc h => absurd h hc) fun _ => ?_
        · exact (lockRelease_own hclean rfl).of_pre fun w _ hs hc => Or.inr ⟨h, hs hc⟩
        · exact unclean_rule fun hc => (lockRelease_own hclean rfl).conseq
            (fun w _ _ h => absurd h hc) (fun _ _ _ _ => hc) fun _ _ _ _ => hc
        · rintro w - (⟨heq, -⟩ | ⟨k, heq, hv⟩)
          · simp at heq
          · obtain rfl : h = k := Option.some.inj heq
            exact ⟨hv, fun _ pid hpid' => by simp [hpid] at hpid'⟩
        · exact Hoare.pure fun w _ hs hc => Or.inl ⟨hs hc, by simp [hpid]⟩

end Triples

end Portalocker
