import Mathlib.Data.Nat.Digits.Defs
import Portalocker.Utils.Acquisition
set_option autoImplicit false
set_option linter.unusedSectionVars false

/-!
# `PidFileLock` keeps the contract

The pid text and how it is read back, the triples for publishing and removing it,
and with them the calls of every instance: each keeps the contract of
`Utils/Ownership.lean`, provided that releases find a settled instance.
-/

namespace Portalocker

open Posix Interleaving Interleaving.Machine World Contract

variable {ι : Type} [DecidableEq ι]

/-! ## The text of a pid -/

/-- Decoding the bytes of decimal digits gives them back. -/
theorem decode_encode {text : List Char} (h : ∀ c ∈ text, c.isDigit = true) :
    (encode text).map (fun b => Char.ofNat b.toNat) = text := by
  simp only [encode, List.map_map]
  calc text.map _ = text.map id := List.map_congr_left fun c hc => by
        have hdigit := h c hc
        simp only [Char.isDigit, Bool.and_eq_true, decide_eq_true_eq] at hdigit
        have hval : c.val.toNat ≤ 57 := hdigit.2
        have hlt : c.toNat < 256 := by
          simp only [Char.toNat]
          omega
        simp [Nat.mod_eq_of_lt hlt]
    _ = text := List.map_id _

/-- There is nothing to strip from digits. -/
theorem dropWhile_digits {text : List Char} (h : ∀ c ∈ text, c.isDigit = true) :
    text.dropWhile isAsciiSpace = text := by
  cases text with
  | nil => rfl
  | cons c rest =>
      have hdigit : 48 ≤ c.toNat := by
        have hc := h c (by simp)
        simp only [Char.isDigit, Bool.and_eq_true, decide_eq_true_eq] at hc
        exact hc.1
      have hspace : isAsciiSpace c = false := by
        have hblank : c ≠ ' ' := by
          rintro rfl
          exact absurd hdigit (by decide)
        simp only [isAsciiSpace, decide_eq_false hblank, Bool.false_or, Bool.or_eq_false_iff,
          Bool.and_eq_false_iff, decide_eq_false_iff_not]
        omega
      simp [hspace]

theorem pythonInt_digits {text : List Char} (hne : text ≠ [])
    (h : ∀ c ∈ text, c.isDigit = true) :
    pythonInt text = some (Nat.ofDigitChars 10 text 0 : Int) := by
  have hrev : ∀ c ∈ text.reverse, c.isDigit = true := by simpa using h
  have hall : text.all Char.isDigit = true := by simpa using h
  unfold pythonInt
  simp only [dropWhile_digits h, dropWhile_digits hrev, List.reverse_reverse]
  split
  · simp [Char.isDigit] at h
  · simp [Char.isDigit] at h
  · simp only [pythonInt.natural, hne, hall, ne_eq, not_false_eq_true, and_self, if_true]
    rw [Nat.ofDigitChars_eq_foldl]
    rfl

/-- `read_pid` reads back what `_write_pid` has written. -/
theorem parsePid_pidText (self : PidFileLock) :
    parsePid self.pidText = some (self.getpid.toNat : Int) := by
  have hdigits : ∀ c ∈ str self.getpid.toNat, c.isDigit = true := fun c hc =>
    Nat.isDigit_of_mem_toDigits (by decide) (by decide) hc
  have hne : str self.getpid.toNat ≠ [] := Nat.toDigits_ne_nil
  unfold parsePid PidFileLock.pidText
  rw [decode_encode hdigits, pythonInt_digits hne hdigits]
  simp [str]

theorem parsePid_nil : parsePid [] = none := by decide

/-- The pid fits into the buffer of its file. -/
theorem pidText_length (self : PidFileLock) : self.pidText.length ≤ defaultBufferSize := by
  have hlength : (Nat.toDigits 10 self.getpid.toNat).length ≤ 10 := by
    refine Nat.toDigits_length 10 _ 10 (by decide) ?_
    have := self.getpid.toNat_lt
    omega
  simp only [PidFileLock.pidText, encode, List.length_map, str, defaultBufferSize]
  omega

section Triples

variable {cfg : Config ι} {hcfg : Separated cfg} {clean : Prop} {g : Guard (machine cfg)}
  {p : ι} {c : Call}

/-! ## Publishing the pid -/

/-- What a fault-free instance knows of the pid file it has open: it has created
the file itself, with this much still in the buffer. -/
structure PidFile (p : ι) (h : Handle ι Path) (pending : List UInt8) (emptied : Bool)
    (w : World ι) : Prop where
  verified : ∃ k, w.Verified p k
  opened : Opened p h w
  creator : w.creator h.ino = some p
  buffer : w.buffer h = pending
  emptied : emptied = true → w.data h.ino = []

/-- What the operations of `_write_pid` do to the pid file while nothing fails. -/
theorem PidFile.stored {w : World ι} {h : Handle ι Path} {pending content : List UInt8} {b : Bool}
    (hs : PidFile p h pending b w) {pending' : List UInt8} {b' : Bool}
    (hempty : b' = true → content = []) :
    PidFile p h pending' b' (w.store h content pending') :=
  ⟨hs.verified, hs.opened, hs.creator, by simp, fun hb => by simpa using hempty hb⟩

/-- A failure has left the pid file of the instance open. -/
def Leftover (clean : Prop) (p : ι) (path : Path) (h : Handle ι Path) (w : World ι) : Prop :=
  ¬ clean ∧ h.owner = p ∧ h.path = path ∧ h.serial < w.serial p

/-- The instance has opened its pid file; `A` holds when nothing fails. -/
def Publishing (clean : Prop) (p : ι) (path : Path) (h : Handle ι Path) (A : World ι → Prop)
    (w : World ι) : Prop :=
  h.owner = p ∧ h.path = path ∧ h.serial < w.serial p ∧ (clean → A w)

instance stable_pidFile (h : Handle ι Path) (pending : List UInt8) (b : Bool) :
    ((ownershipContract cfg hcfg clean g).ctx p c).Stable
      fun w => clean → PidFile p h pending b w := by
  refine stable_of fun {w w'} hw _ _ hu hr hs hc => ?_
  obtain ⟨⟨k, hk⟩, ⟨ho, hd, hopen⟩, hcreator, hbuffer, hempty⟩ := hs hc
  have hsame := hu.handle h ho hd
  refine ⟨⟨k, verified_stable hw hu hk⟩, ⟨ho, hsame.dropped.trans hd, hsame.file.mem.2 hopen⟩,
    (hsame.creator hopen).trans hcreator, hsame.file.buffer.trans hbuffer, fun hb => ?_⟩
  exact ((hr hc).2 h ho hd hopen hcreator).trans (hempty hb)

instance stable_publishing (path : Path) (h : Handle ι Path) (A : World ι → Prop)
    [((ownershipContract cfg hcfg clean g).ctx p c).Stable fun w => clean → A w] :
    ((ownershipContract cfg hcfg clean g).ctx p c).Stable (Publishing clean p path h A) :=
  inferInstanceAs (Context.Stable _ fun w => _ ∧ _ ∧ _ ∧ (clean → A w))

instance stable_leftover (path : Path) (h : Handle ι Path) :
    ((ownershipContract cfg hcfg clean g).ctx p c).Stable (Leftover clean p path h) :=
  inferInstanceAs (Context.Stable _ fun _ => _ ∧ _ ∧ _ ∧ _)

/-- A run with failures need not know what the file holds. -/
theorem Leftover.publishing {path : Path} {h : Handle ι Path} {w : World ι} (A : World ι → Prop)
    (hs : Leftover clean p path h w) : Publishing clean p path h A w :=
  ⟨hs.2.1, hs.2.2.1, hs.2.2.2, fun hc => absurd hc hs.1⟩

/-- Only opening a file changes how many have been opened. -/
theorem serial_of_change {w w' : World ι} {o : Op ι} (hc : Change cfg p w o w')
    (ho : ∀ path kind, o ≠ .openFile path kind) : w'.serial = w.serial := by
  cases hc with
  | openAt path kind i hn => exact absurd rfl (ho path kind)
  | openEmptied path i hn => exact absurd rfl (ho path .write)
  | create path kind i hn hi hkind => exact absurd rfl (ho path kind)
  | _ => rfl

variable (hclean : clean → Faultless cfg)
include hclean

/-- One operation on the pid file. -/
theorem publish_rule (hcall : ¬ IsRelease c) {o : Op ι} {path : Path} {h : Handle ι Path} {A B : World ι → Prop}
    [((ownershipContract cfg hcfg clean g).ctx p c).Stable fun w => clean → A w]
    [((ownershipContract cfg hcfg clean g).ctx p c).Stable fun w => clean → B w]
    (ho : ∀ path kind, o ≠ .openFile path kind)
    (hpre : ∀ w, h.owner = p → h.path = path → Own p w o ∧ ownershipPre cfg p w o)
    (htidy : ∀ w, Ownership cfg w → h.path = path → A w → tidyPre cfg p w o)
    (hact : ∀ w choice r w', Ownership cfg w → h.path = path → A w →
      cfg.act choice p w o = some (r, w') → (∃ v, r = .ok v) ∧ B w') :
    OwnTriple hcfg clean g p c (Publishing clean p path h A) (perform o)
      (fun _ => Publishing clean p path h B) (fun _ => Leftover clean p path h) := by
  refine own_rule hclean ?_ ?_ ?_
  · intro w _ hi _ hs
    exact ⟨(hpre w hs.1 hs.2.1).1, (hpre w hs.1 hs.2.1).2,
      fun hc => htidy w hi hs.2.1 (hs.2.2.2 hc)⟩
  · rintro w choice r w' _ hi _ ⟨howner, hpath, hserial, hs⟩ h'
    have hserial' : h.serial < w'.serial p := by
      rw [serial_of_change (Config.act_change h') ho]
      exact hserial
    cases r with
    | ok v => exact ⟨howner, hpath, hserial', fun hc => (hact w choice _ w' hi hpath (hs hc) h').2⟩
    | error e =>
        have hc : ¬ clean := fun hc => by
          obtain ⟨⟨v, hv⟩, -⟩ := hact w choice _ w' hi hpath (hs hc) h'
          cases hv
        exact ⟨hc, howner, hpath, hserial'⟩
  · rintro w e _ _ hc ⟨howner, hpath, hserial, -⟩
    have hchange : Change cfg p w o (Config.afterFault w o) := Config.afterFault_change w o
    exact ⟨hc, howner, hpath, (serial_of_change hchange ho).symm ▸ hserial⟩

variable {self : PidFileLock} (hobject : cfg.object p = .pidFileLock self)
include hobject

omit hclean in
theorem publishes_self {content : List UInt8} (h : content = [] ∨ content = self.pidText) :
    Publishes cfg p content := ⟨self, hobject, h⟩

omit hclean in
/-- The pid file is not a lock file. -/
theorem unconfirmed_pidFile (hcfg : Separated cfg) {w : World ι} {h : Handle ι Path} (hi : Ownership cfg w)
    (hpath : h.path = self.filename) : w.confirmed h = false := by
  refine Bool.eq_false_iff.2 fun hconf => ?_
  have hpid : (cfg.object p).pidPath = some h.path := by rw [hobject, hpath]; rfl
  exact hcfg.apart hpid (hi.own_path hconf)

/-- Opening the pid file for writing.  A verified instance finds its own file, or
none. -/
theorem openPid_own (hcall : ¬ IsRelease c) :
    OwnTriple hcfg clean g p c (fun w => clean → ∃ k, w.Verified p k)
      (perform (.openFile self.filename .append))
      (fun h => Publishing clean p self.filename h (PidFile p h [] false)) (fun _ _ => ¬ clean) := by
  have hpid : (cfg.object p).pidPath = some self.filename := by rw [hobject]; rfl
  refine own_rule hclean ?_ ?_ fun w e _ _ hc _ => hc
  · exact fun w _ _ _ hs => ⟨by simp [Own], Or.inr hpid, fun hc _ _ => hs hc⟩
  · intro w choice r w' hw hi ht hs hact
    have hopened : ∀ i (w₁ : World ι), w₁.Wf → (clean → w₁.creator i = some p) →
        (clean → ∃ k, w₁.Verified p k) →
        Publishing clean p self.filename (w₁.handle p self.filename i)
          (PidFile p (w₁.handle p self.filename i) [] false)
          (w₁.openAt p self.filename i) := by
      intro i w₁ hw₁ hcreator hv
      have hundropped : w₁.dropped (w₁.handle p self.filename i) = false :=
        Bool.eq_false_iff.2 fun hd => absurd (hw₁.dropped_serial hd) (by simp)
      exact ⟨rfl, rfl, by simp, fun hc => ⟨hv hc, ⟨rfl, hundropped, by simp⟩, hcreator hc,
        hw₁.fs.buffer_open hw₁.fs.handle_not_mem, by simp⟩⟩
    simp only [Config.act] at hact
    split at hact
    · rename_i i hn
      simp only [Option.some.injEq, Prod.mk.injEq] at hact
      obtain ⟨rfl, rfl⟩ := hact
      refine hopened i w hw (fun hc => ?_) hs
      obtain ⟨k, hk⟩ := hs hc
      obtain ⟨q, l, hq, hl, hcreator⟩ := (ht hc).published hpid hn
      rwa [hi.unique hw hk hl (lockPath_of_pidPath hpid hq)]
    · simp only [Option.ite_none_right_eq_some, Option.some.injEq, Prod.mk.injEq] at hact
      obtain ⟨hnew, rfl, rfl⟩ := hact
      have hcreated : (w.create self.filename choice.ino
          (if (cfg.object p).pidPath = some self.filename then some p else none)).Wf :=
        ⟨hw.fs.create ‹_› hnew, hw.fh_owner, hw.fh_serial, hw.fh_dropped, hw.dropped_serial⟩
      exact hopened _ _ hcreated (fun _ => by simp [hpid]) hs

/-- Emptying the pid file and writing the pid into its buffer, then to the file. -/
theorem storePid_own (hcall : ¬ IsRelease c) (h : Handle ι Path) :
    OwnTriple hcfg clean g p c (Publishing clean p self.filename h (PidFile p h [] false))
      (self.storePid h) (fun _ => Publishing clean p self.filename h (PidFile p h [] false))
      (fun _ => Leftover clean p self.filename h) := by
  have hlock : (cfg.object p).lockPath ≠ some self.filename :=
    hcfg.apart (p := p) (by rw [hobject]; rfl)
  refine Hoare.bind (R := fun _ => Publishing clean p self.filename h (PidFile p h [] false))
    (publish_rule hclean hcall (by simp) (fun w ho _ => ⟨ho, trivial⟩) ?_ ?_) fun _ => ?_
  · exact fun w _ _ hs => Or.inl (by rw [hs.buffer, List.append_nil])
  · intro w choice r w' _ _ hs hact
    simp only [Config.act, Config.onOpen, if_pos hs.opened.2.2, Option.some.injEq,
      Prod.mk.injEq] at hact
    obtain ⟨rfl, rfl⟩ := hact
    exact ⟨⟨_, rfl⟩, hs.stored (by simp)⟩
  refine Hoare.bind (R := fun _ => Publishing clean p self.filename h (PidFile p h [] true))
    (publish_rule hclean hcall (by simp) (fun w ho _ => ⟨ho, trivial⟩) ?_ ?_) fun _ => ?_
  · exact fun w _ _ hs => Or.inr (Or.inr ⟨hs.creator, publishes_self hobject (Or.inl rfl)⟩)
  · intro w choice r w' _ _ hs hact
    simp only [Config.act, Config.onOpen, if_pos hs.opened.2.2, Option.some.injEq,
      Prod.mk.injEq] at hact
    obtain ⟨rfl, rfl⟩ := hact
    have hempty : PidFile p h [] true (w.store h [] []) := hs.stored fun _ => rfl
    exact ⟨⟨_, rfl⟩, hempty.verified, hempty.opened, hempty.creator, hempty.buffer,
      hempty.emptied⟩
  refine Hoare.bind
    (R := fun _ => Publishing clean p self.filename h (PidFile p h self.pidText true))
    (publish_rule hclean hcall (by simp) (fun w ho hp => ⟨ho, fun heq => hlock (hp ▸ heq)⟩) ?_ ?_) fun _ => ?_
  · intro w _ _ hs
    have := pidText_length self
    simpa [tidyPre, hs.buffer] using this
  · intro w choice r w' _ _ hs hact
    have hlength := pidText_length self
    simp only [Config.act, Config.onOpen, if_pos hs.opened.2.2, hs.buffer, List.nil_append,
      Option.ite_none_right_eq_some, Option.some.injEq, Prod.mk.injEq] at hact
    obtain ⟨hcount, rfl, rfl⟩ := hact
    have hzero : choice.count = 0 := hcount.resolve_right fun h => by omega
    have hwritten : PidFile p h self.pidText true (w.store h (w.data h.ino) self.pidText) :=
      hs.stored fun _ => hs.emptied rfl
    simp only [hzero, List.take_zero, List.append_nil, List.drop_zero]
    exact ⟨⟨(), trivial⟩, hwritten.verified, hwritten.opened, hwritten.creator, hwritten.buffer,
      hwritten.emptied⟩
  refine publish_rule hclean hcall (by simp) (fun w ho _ => ⟨ho, trivial⟩) ?_ ?_
  · intro w _ _ hs
    refine Or.inr (Or.inr ⟨hs.creator, publishes_self hobject (Or.inr ?_)⟩)
    rw [hs.emptied rfl, hs.buffer, List.nil_append]
  · intro w choice r w' _ _ hs hact
    simp only [Config.act, Config.onOpen, if_pos hs.opened.2.2, Option.some.injEq,
      Prod.mk.injEq] at hact
    obtain ⟨rfl, rfl⟩ := hact
    exact ⟨⟨_, rfl⟩, hs.stored (by simp)⟩

/-- Closing the pid file. -/
theorem closePid_own (hcall : ¬ IsRelease c) (h : Handle ι Path) :
    OwnTriple hcfg clean g p c (Publishing clean p self.filename h (PidFile p h [] false))
      (perform (.close h))
      (fun _ => Publishing clean p self.filename h fun w => ∃ k, w.Verified p k)
      (fun _ => Leftover clean p self.filename h) := by
  refine publish_rule hclean hcall (by simp) (fun w ho _ => ⟨ho, trivial⟩) ?_ ?_
  · intro w hi hpath hs
    exact ⟨unconfirmed_pidFile hobject hcfg hi hpath,
      Or.inl (by rw [hs.buffer, List.append_nil])⟩
  · intro w choice r w' hi hpath hs hact
    have hconf := unconfirmed_pidFile hobject hcfg hi hpath
    simp only [Config.act, if_pos hs.opened.2.2, Option.some.injEq, Prod.mk.injEq] at hact
    obtain ⟨rfl, rfl⟩ := hact
    obtain ⟨k, hk⟩ := hs.verified
    have hne : k ≠ h := fun heq => by
      rw [heq] at hk
      exact absurd (hconf.symm.trans hk.2) (by simp)
    exact ⟨⟨(), rfl⟩, k, hk.1, by simpa [Function.update_of_ne hne] using hk.2⟩

/-- An exception takes the last reference to the pid file along. -/
theorem dropPid_own (h : Handle ι Path) :
    OwnTriple hcfg clean g p c (Leftover clean p self.filename h) (perform (.drop h))
      (fun _ _ => ¬ clean) (fun _ _ => ¬ clean) := by
  refine own_rule hclean ?_ (fun w choice r w' _ _ _ hs _ => ?_) fun w e _ _ hc _ => hc
  · rintro w _ hi _ ⟨hc, ho, hpath, hserial⟩
    refine ⟨⟨ho, hserial, fun hfh => ?_⟩, trivial, fun h => absurd h hc⟩
    exact hcfg.apart (p := p) (by rw [hobject, hpath]; rfl) (hi.path hfh)
  · cases r <;> exact hs.1

/-- `_write_pid`: an exception leaves it only when something fails. -/
theorem writePid_own (hcall : ¬ IsRelease c) :
    OwnTriple hcfg clean g p c (fun w => clean → ∃ k, w.Verified p k) self.writePid
      (fun _ w => clean → ∃ k, w.Verified p k) (fun _ _ => ¬ clean) := by
  refine Hoare.bind (openPid_own hclean hobject hcall) fun h => ?_
  refine Hoare.onRaise (F := fun _ => Leftover clean p self.filename h) ?_
    fun e => dropPid_own hclean hobject h
  refine Hoare.bind (R := fun _ => Publishing clean p self.filename h (PidFile p h [] false)) ?_
    fun _ => (closePid_own hclean hobject hcall h).of_post fun _ w _ hs => hs.2.2.2
  refine Hoare.tryCatch (F := fun _ => Leftover clean p self.filename h) ?_ fun e => ?_
  · refine Hoare.bind (storePid_own hclean hobject hcall h) fun _ => ?_
    refine Hoare.tryCatch (F := fun _ => Leftover clean p self.filename h)
      (publish_rule hclean hcall (by simp) (fun w _ _ => ⟨trivial, trivial⟩)
        (fun _ _ _ _ => trivial) ?_) fun e => ?_
    · intro w choice r w' _ _ hs hact
      simp only [Config.act, Config.onOpen, if_pos hs.opened.2.2, Option.some.injEq,
        Prod.mk.injEq] at hact
      obtain ⟨rfl, rfl⟩ := hact
      exact ⟨⟨(), rfl⟩, hs⟩
    · split
      · exact Hoare.pure fun w _ hs => hs.publishing _
      · exact Hoare.throw fun w _ hs => hs
  · have hclose : OwnTriple hcfg clean g p c (Leftover clean p self.filename h)
        (perform (.close h)) (fun _ => Leftover clean p self.filename h)
        (fun _ => Leftover clean p self.filename h) := by
      intro w hw hs
      have hc : ¬ clean := hs.1
      exact ((closePid_own hclean hobject hcall h).conseq (fun _ _ hs => hs.publishing _)
        (fun _ _ _ hs => ⟨hc, hs.1, hs.2.1, hs.2.2.1⟩) fun _ _ _ hs => hs) w hw hs
    split
    · refine Hoare.bind (suppress_rule (hclose.conseq (fun _ _ hs => hs) (fun _ _ _ hs => hs)
        fun e w _ hs => ?_)) fun _ => Hoare.throw fun w _ hs => hs
      unfold Caught
      split <;> exact hs
    · exact Hoare.throw fun w _ hs => hs

/-! ## Attributes -/

/-- The instance holds nothing when nothing has failed. -/
def Vacant (clean : Prop) (p : ι) (w : World ι) : Prop :=
  clean → w.fh p = none ∧ w.inner p = false

omit hclean hobject in
instance stable_vacant : ((ownershipContract cfg hcfg clean g).ctx p c).Stable (Vacant clean p) :=
  inferInstanceAs (Context.Stable _ fun _ => clean → _ ∧ _)

omit hclean hobject in
theorem Vacant.idle {w : World ι} (hs : Vacant clean p w) :
    (ownershipContract cfg hcfg clean g).idle p w :=
  fun hc => Or.inl ⟨(hs hc).1, fun _ => (hs hc).2⟩

omit hobject in
theorem innerLock_own {P : World ι → Prop}
    [((ownershipContract cfg hcfg clean g).ctx p c).Stable P] :
    OwnTriple hcfg clean g p c P (perform .innerLock) (fun b w => w.inner p = b ∧ P w)
      (fun _ _ => ¬ clean) := by
  refine own_rule hclean (fun w _ _ _ _ => ⟨trivial, trivial, fun _ => trivial⟩) ?_
    fun w e _ _ hc _ => hc
  intro w choice r w' _ _ _ hs hact
  simp only [Config.act, Option.some.injEq, Prod.mk.injEq] at hact
  obtain ⟨rfl, rfl⟩ := hact
  exact ⟨rfl, hs⟩

omit hobject in
theorem acquiredLock_own {P : World ι → Prop}
    [((ownershipContract cfg hcfg clean g).ctx p c).Stable P] :
    OwnTriple hcfg clean g p c P (perform .acquiredLock) (fun b w => w.acquired p = b ∧ P w)
      (fun _ _ => ¬ clean) := by
  refine own_rule hclean (fun w _ _ _ _ => ⟨trivial, trivial, fun _ => trivial⟩) ?_
    fun w e _ _ hc _ => hc
  intro w choice r w' _ _ _ hs hact
  simp only [Config.act, Option.some.injEq, Prod.mk.injEq] at hact
  obtain ⟨rfl, rfl⟩ := hact
  exact ⟨rfl, hs⟩

omit hobject in
theorem setInner_own {P : World ι → Prop}
    [((ownershipContract cfg hcfg clean g).ctx p c).Stable P] (b : Bool)
    (hP : ∀ w, P w → P (w.setInner p b)) :
    OwnTriple hcfg clean g p c P (perform (.setInnerLock b)) (fun _ w => w.inner p = b ∧ P w)
      (fun _ _ => ¬ clean) := by
  refine own_rule hclean (fun w _ _ _ _ => ⟨trivial, trivial, fun _ => trivial⟩) ?_
    fun w e _ _ hc _ => hc
  intro w choice r w' _ _ _ hs hact
  simp only [Config.act, Option.some.injEq, Prod.mk.injEq] at hact
  obtain ⟨rfl, rfl⟩ := hact
  exact ⟨Function.update_self .., hP w hs⟩

omit hobject in
theorem setAcquired_own {P : World ι → Prop}
    [((ownershipContract cfg hcfg clean g).ctx p c).Stable P] (b : Bool)
    (hP : ∀ w, P w → P { w with acquired := Function.update w.acquired p b }) :
    OwnTriple hcfg clean g p c P (perform (.setAcquiredLock b)) (fun _ => P)
      (fun _ _ => ¬ clean) := by
  refine own_rule hclean (fun w _ _ _ _ => ⟨trivial, trivial, fun _ => trivial⟩) ?_
    fun w e _ _ hc _ => hc
  intro w choice r w' _ _ _ hs hact
  simp only [Config.act, Option.some.injEq, Prod.mk.injEq] at hact
  obtain ⟨rfl, rfl⟩ := hact
  exact hP w hs

omit hobject in
theorem discardLock_own :
    OwnTriple hcfg clean g p c (Vacant clean p) (perform .discardLock) (fun _ => Vacant clean p)
      (fun _ _ => ¬ clean) := by
  refine own_rule hclean (fun w _ _ _ hs => ⟨trivial, trivial, fun hc => (hs hc).1⟩) ?_
    fun w e _ _ hc _ => hc
  intro w choice r w' _ _ _ hs hact
  simp only [Config.act, Option.some.injEq, Prod.mk.injEq] at hact
  obtain ⟨rfl, rfl⟩ := hact
  exact fun hc => ⟨Function.update_self .., (hs hc).2⟩

/-! ## `acquire` -/

/-- The sidecar part. -/
theorem acquireSidecar_own (hcall : ¬ IsRelease c) (timeout checkInterval : Option Rat) (b : Bool) :
    OwnTriple hcfg clean g p c (fun w => clean → w.fh p = none)
      (self.acquireSidecar timeout checkInterval b) (fun h w => clean → w.Verified p h)
      (fun _ => Vacant clean p) := by
  have hpath : (cfg.object p).lockPath =
      some (self.innerLock timeout checkInterval b).filename := by rw [hobject]; rfl
  refine Hoare.tryCatch (F := Empty clean p)
    ((acquireVerified_own hclean hcall rfl rfl rfl hpath timeout checkInterval
      (some b)).conseq
      (fun w _ hs hc => Or.inl (hs hc)) (fun _ _ _ hs => hs.2) fun _ _ _ hs => hs) fun e => ?_
  split
  · refine Hoare.bind ((setInner_own hclean false fun _ hs => hs).conseq (fun _ _ hs => hs)
      (fun _ _ _ hs => hs) fun e w _ hc h => absurd h hc) fun _ => ?_
    exact Hoare.throw fun w _ hs hc => ⟨(hs.2 hc).2, hs.1⟩
  · exact Hoare.throw fun w _ hs hc => absurd (hs hc).1 ‹_›

omit hobject in
/-- `_rollback_failed_acquire` follows a failure only. -/
theorem rollback_own (hc : ¬ clean) {inner : Lock} (hinner : inner.raiseOnReleaseError = false) :
    OwnTriple hcfg clean g p c (fun _ => True) (PidFileLock.rollbackFailedAcquire inner)
      (fun _ _ => True) (fun _ _ => True) := by
  have hrelease : OwnTriple hcfg clean g p c (fun _ => True) inner.release (fun _ _ => True)
      (Caught (fun _ => True) fun _ _ => True) :=
    (lockRelease_own hclean hinner).conseq (fun _ _ _ h => absurd h hc) (fun _ _ _ _ => trivial)
      fun e w _ _ => by unfold Caught; split <;> trivial
  have hforget : ∀ b h, OwnTriple hcfg clean g p c (Spent p b h) (perform (.setFh none))
      (fun _ _ => True) (fun _ _ => True) := fun b h =>
    (forget_own hclean b h).conseq (fun _ _ hs => hs) (fun _ _ _ _ => trivial)
      fun _ _ _ _ => trivial
  have hclose : OwnTriple hcfg clean g p c (fun _ => True) PidFileLock.closeLeftHandle
      (fun _ _ => True) (fun _ _ => True) := by
    refine Hoare.bind (fh_own hclean fun _ _ _ => trivial) fun v => ?_
    cases v with
    | none => exact Hoare.pure fun _ _ _ => trivial
    | some h =>
        refine Hoare.bind (R := fun _ _ => True) ?_ fun _ => Hoare.pure fun _ _ _ => trivial
        intro w hw hs
        refine (Hoare.withFinally (Q := fun _ _ => True) (E := fun _ _ => True)
          (R := fun _ => Spent p (w.inner p) h) (F := fun _ => Spent p (w.inner p) h)
          (suppress_rule ((close_own hclean (w.inner p) h).conseq (fun _ _ hs => hs)
            (fun _ _ _ hs => hs) fun e w _ hs => ?_)) (fun _ => ?_) fun _ => ?_) w hw
          ⟨hs.1, rfl, fun h => absurd h hc⟩
        · unfold Caught
          split <;> exact hs.2
        · exact hforget _ h
        · exact hforget _ h
  refine Hoare.bind (suppress_rule hrelease) fun _ => Hoare.bind hclose fun _ => ?_
  refine Hoare.bind ((setInner_own hclean false fun _ _ => trivial).conseq (fun _ _ hs => hs)
    (fun _ _ _ hs => hs) fun _ _ _ _ => trivial) fun _ => ?_
  exact (setAcquired_own hclean false fun _ _ => trivial).conseq (fun _ _ _ => trivial)
    (fun _ _ _ _ => trivial) fun _ _ _ _ => trivial

theorem PidFileLock.acquire_own (hcall : ¬ IsRelease c) (timeout checkInterval : Option Rat)
    (b : Option Bool) :
    OwnTriple hcfg clean g p c (Vacant clean p) (self.acquire timeout checkInterval b)
      (fun _ => (ownershipContract cfg hcfg clean g).idle p) (fun _ => Vacant clean p) := by
  have hvacant : ∀ {w : World ι}, ¬ clean → Vacant clean p w := fun hc h => absurd h hc
  refine Hoare.onRaise (F := fun _ => Vacant clean p) ?_ fun e => ?_
  · refine Hoare.bind ((discardLock_own hclean).conseq (fun _ _ hs => hs) (fun _ _ _ hs => hs)
      fun _ _ _ => hvacant) fun _ => ?_
    refine Hoare.bind (((setInner_own (P := fun w => clean → w.fh p = none) hclean true
      fun _ hs => hs).conseq (fun w _ hs hc => (hs hc).1) (fun _ _ _ hs => hs.2)
      fun _ _ _ => hvacant)) fun _ => ?_
    refine Hoare.bind (acquireSidecar_own hclean hobject hcall timeout checkInterval _) fun h => ?_
    refine Hoare.bind (R := fun _ w => clean → ∃ k, w.Verified p k)
      (Hoare.tryCatch (F := fun _ _ => ¬ clean) ((writePid_own hclean hobject hcall).of_pre
        fun w _ hs hc => ⟨h, hs hc⟩) fun e => ?_) fun _ => ?_
    · split
      · exact unclean_rule fun hc => Hoare.bind (R := fun _ _ => True)
          ((rollback_own hclean hc rfl).conseq (fun _ _ hs => hs) (fun _ _ _ hs => hs)
            fun _ _ _ _ => hvacant hc) fun _ => Hoare.throw fun _ _ _ => hvacant hc
      · exact Hoare.throw fun _ _ hc => hvacant hc
    · refine Hoare.bind ((setAcquired_own hclean true fun _ hs => hs).conseq (fun _ _ hs => hs)
        (fun _ _ _ hs => hs) fun _ _ _ => hvacant) fun _ => ?_
      refine Hoare.bind (fh_own hclean fun _ _ => hvacant) fun v => ?_
      cases v with
      | none =>
          refine Hoare.throw fun w _ hs hc => ?_
          obtain ⟨k, hk⟩ := hs.2 hc
          exact absurd (hs.1.symm.trans hk.1) (by simp)
      | some h =>
          refine Hoare.bind ((acquired_own hclean h).conseq ?_ (fun _ _ _ hs => hs)
            fun _ _ _ => hvacant) fun _ => Hoare.pure fun w _ hs hc => Or.inr ⟨h, hs hc⟩
          intro w _ hs hc
          obtain ⟨k, hk⟩ := hs.2 hc
          obtain rfl : h = k := Option.some.inj (hs.1.symm.trans hk.1)
          exact hk
  · refine Hoare.bind ((innerLock_own hclean).conseq (fun _ _ hs => hs) (fun _ _ _ hs => hs.2)
      fun _ _ _ => hvacant) fun b => ?_
    cases b with
    | true => exact Hoare.pure fun _ _ hs => hs
    | false =>
        exact (discardLock_own hclean).conseq (fun _ _ hs => hs) (fun _ _ _ hs => hs)
          fun _ _ _ => hvacant

end Triples

end Portalocker
