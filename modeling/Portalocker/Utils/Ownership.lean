import Portalocker.Utils.Contract
set_option autoImplicit false
set_option linter.unusedSectionVars false

/-!
# Who owns a lock path

The contract of `TemporaryFileLock` and `PidFileLock` instances.  A handle that
has passed the inode comparison while it was locked owns its path, and goes on
owning it until its own instance unlocks, closes or unlinks: nobody else may
unlink a lock path, because that takes a handle that owns it (`Ownership`).

Where nothing fails and no call is interrupted, the instances keep more
(`Tidy`): an instance that has acquired is an owner, and a pid file exists only
while the instance that wrote it owns the sidecar.  The parameter `clean` of the
contract says whether that is so.
-/

namespace Portalocker

open Posix Interleaving Interleaving.Machine World Contract

variable {ι : Type} [DecidableEq ι]

/-- All instances are `TemporaryFileLock`s and `PidFileLock`s with the default
flags, and no pid file is the lock file of an instance. -/
structure Separated (cfg : Config ι) : Prop where
  object : ∀ p, (∃ self : TemporaryFileLock, cfg.object p = .temporaryFileLock self ∧
    self.flags = .lockMethod) ∨ ∃ self : PidFileLock, cfg.object p = .pidFileLock self
  apart : ∀ {p q path}, (cfg.object p).pidPath = some path → (cfg.object q).lockPath ≠ some path

/-- No operation fails for another reason than contention, and no call is
interrupted. -/
def Faultless (cfg : Config ι) : Prop := ∀ c o e, cfg.mayRaise c o e = false

section Faultless

variable {cfg : Config ι} {g : Guard (machine cfg)} {K : Contract cfg g} {p : ι} {c : Call}
  (hfaultless : Faultless cfg)
include hfaultless

/-- One operation where nothing fails: it is permitted and its effect leads to the
postconditions. -/
theorem faultless_rule {o : Op ι} {P : World ι → Prop} {Q : Val o → World ι → Prop}
    {E : Exc → World ι → Prop} [(K.ctx p c).Stable P] [∀ v, (K.ctx p c).Stable (Q v)]
    [∀ e, (K.ctx p c).Stable (E e)]
    (hpre : ∀ w, w.Wf → K.inv w → P w → Own p w o ∧ K.pre p c w o)
    (hact : ∀ w choice r w', w.Wf → K.inv w → P w → cfg.act choice p w o = some (r, w') →
      Ends Q E r w') : K.Triple p c P (perform o) Q E := by
  refine perform_rule hpre (fun w choice r w' hw hi _ _ hP h => hact w choice r w' hw hi hP h) ?_
  intro w e _ _ _ he
  simp [hfaultless c o e] at he

/-- Reading the current handle. -/
theorem fh_faultless {P : World ι → Prop} {E : Exc → World ι → Prop} [(K.ctx p c).Stable P]
    [∀ e, (K.ctx p c).Stable (E e)] (hpre : ∀ w, K.pre p c w .fh) :
    K.Triple p c P (perform .fh) (fun v w => w.fh p = v ∧ P w) E :=
  fh_rule hpre fun w e _ he => by simp [hfaultless c _ e] at he

/-- Asking the clock or waiting. -/
theorem pause_faultless {o : Op ι} (ho : (∃ timeout, o = .attempts timeout) ∨
      ∃ i checkInterval, o = .sleep i checkInterval) {P : World ι → Prop}
    {E : Exc → World ι → Prop} [(K.ctx p c).Stable P] [∀ e, (K.ctx p c).Stable (E e)]
    (hpre : ∀ w, K.pre p c w o) : K.Triple p c P (perform o) (fun _ => P) E :=
  pause_rule ho hpre fun w e _ he => by simp [hfaultless c o e] at he

end Faultless

/-- Instances with one pid path have one sidecar. -/
theorem lockPath_of_pidPath {a b : Instance} {path : Path} (ha : a.pidPath = some path)
    (hb : b.pidPath = some path) : a.lockPath = b.lockPath := by
  cases a <;> cases b <;> simp_all [Instance.pidPath, Instance.lockPath, PidFileLock.lockfile]

/-! ## Ownership -/

/-- A confirmed handle owns the path of its instance's lock file, and is the
instance's current handle unless it has been dropped. -/
structure Ownership (cfg : Config ι) (w : World ι) : Prop where
  path : ∀ {p h}, w.fh p = some h → (cfg.object p).lockPath = some h.path
  owns : ∀ {h}, w.confirmed h = true → w.toFs.Owns h.path h
  own_path : ∀ {h}, w.confirmed h = true → (cfg.object h.owner).lockPath = some h.path
  current : ∀ {h}, w.confirmed h = true → w.dropped h = false → w.fh h.owner = some h
  buffer : ∀ {h}, (cfg.object h.owner).lockPath = some h.path → w.buffer h = []
  exclusive : ∀ {h}, w.lock h ≠ none → w.lock h = some .exclusive

/-- What the operations of an instance must not do to the others' ownership. -/
def ownershipPre (cfg : Config ι) (p : ι) (w : World ι) : Op ι → Prop
  | .setFh v => (∀ h, w.fh p = some h → v = some h ∨ w.confirmed h = false) ∧
      ∀ h, v = some h → (cfg.object p).lockPath = some h.path
  | .openFile path _ =>
      (cfg.object p).lockPath = some path ∨ (cfg.object p).pidPath = some path
  | .flock _ flags => flags = .lockMethod
  | .write h _ _ => (cfg.object p).lockPath ≠ some h.path
  | .unlink path => (∃ h, w.Verified p h) ∧
      ((cfg.object p).lockPath = some path ∨ (cfg.object p).pidPath = some path)
  | _ => True

/-- The calls that release. -/
def IsRelease (c : Call) : Prop := c = .release ∨ c = .exit

/-- Operations that change no file, except for names they remove. -/
def Harmless (w : World ι) : Op ι → Prop
  | .openFile _ kind => kind = .read
  | .close h | .seek h | .flush h => w.buffer h = []
  | .truncate _ | .write _ _ _ => False
  | _ => True

section Ownership

variable {cfg : Config ι} {w w' : World ι} {p q : ι} {g h : Handle ι Path} {o : Op ι}

/-- Two verified instances on one lock path are one. -/
theorem Ownership.unique (hw : w.Wf) (hi : Ownership cfg w) (hp : w.Verified p g)
    (hq : w.Verified q h) (hpath : (cfg.object p).lockPath = (cfg.object q).lockPath) :
    p = q := by
  have hgh : g.path = h.path := by
    have := (hi.path hp.1).symm.trans (hpath.trans (hi.path hq.1))
    exact Option.some.inj this
  have heq : g = h := (hgh ▸ hi.owns hp.2).unique hw.fs (hi.owns hq.2)
  rw [← hw.fh_owner hp.1, ← hw.fh_owner hq.1, heq]

/-- Changes that leave locks, names, handles and marks alone. -/
theorem Ownership.close (hi : Ownership cfg w) (content : List UInt8) :
    Ownership cfg ((w.store g content []).discard g) := by
  have hkept : ∀ {h}, ((w.store g content []).discard g).confirmed h = true →
      h ≠ g ∧ w.confirmed h = true := by
    intro h hc
    by_cases hne : h = g
    · simp [hne] at hc
    · exact ⟨hne, by simpa [Function.update_of_ne hne] using hc⟩
  refine ⟨hi.path, ?_, fun hc => hi.own_path (hkept hc).2,
    fun hc hd => hi.current (hkept hc).2 hd, ?_, ?_⟩
  · intro h hc
    obtain ⟨hne, hc⟩ := hkept hc
    exact ⟨(hi.owns hc).1, by simpa [Function.update_of_ne hne] using (hi.owns hc).2⟩
  · intro h hpath
    by_cases hne : h = g
    · simp [hne]
    · simpa [Function.update_of_ne hne] using hi.buffer hpath
  · intro h hl
    by_cases hne : h = g
    · simp [hne] at hl
    · exact by simpa [Function.update_of_ne hne] using
        hi.exclusive (by simpa [Function.update_of_ne hne] using hl)

theorem Ownership.change (hcfg : Separated cfg) (hw : w.Wf) (hi : Ownership cfg w)
    (hown : Own p w o) (hpre : ownershipPre cfg p w o) (hc : Change cfg p w o w') :
    Ownership cfg w' := by
  cases hc with
  | same | setInnerLock | setAcquiredLock | setAcquireCount | acquired | readPidCalled
    | readPidReturns =>
      exact ⟨hi.path, hi.owns, hi.own_path, hi.current, hi.buffer, hi.exclusive⟩
  | openAt path kind i hn => exact ⟨hi.path, hi.owns, hi.own_path, hi.current, hi.buffer, hi.exclusive⟩
  | openEmptied path i hn => exact absurd rfl hown
  | setFh v =>
      refine ⟨?_, hi.owns, hi.own_path, ?_, hi.buffer, hi.exclusive⟩
      · intro q h hq
        by_cases hqp : q = p
        · subst hqp
          exact hpre.2 h (by simpa using hq)
        · exact hi.path (by simpa [Function.update_of_ne hqp] using hq)
      · intro h hconf hd
        have hcur := hi.current hconf hd
        by_cases hqp : h.owner = p
        · rw [hqp] at hcur ⊢
          rcases hpre.1 h hcur with rfl | hfalse
          · simp
          · exact absurd (hfalse.symm.trans hconf) (by simp)
        · simpa [Function.update_of_ne hqp] using hcur
  | discardLock =>
      refine ⟨?_, hi.owns, hi.own_path, ?_, hi.buffer, hi.exclusive⟩
      · intro q h hq
        by_cases hqp : q = p
        · simp [hqp] at hq
        · exact hi.path (by simpa [Function.update_of_ne hqp] using hq)
      · intro h hconf hd
        simp only [discardLock_dropped, Bool.or_eq_false_iff, decide_eq_false_iff_not] at hd
        have hcur := hi.current hconf hd.1
        have hqp : h.owner ≠ p := fun heq => hd.2 (heq ▸ hcur)
        simpa [Function.update_of_ne hqp] using hcur
  | drop g =>
      refine ⟨hi.path, hi.owns, hi.own_path, ?_, hi.buffer, hi.exclusive⟩
      intro h hconf hd
      by_cases hne : h = g
      · simp [hne] at hd
      · exact hi.current hconf (by simpa [Function.update_of_ne hne] using hd)
  | create path kind i hn hfresh hkind =>
      refine ⟨hi.path, ?_, hi.own_path, hi.current, hi.buffer, hi.exclusive⟩
      intro h hconf
      obtain ⟨hnames, hlock⟩ := hi.owns hconf
      have hne : h.path ≠ path := fun heq => by
        rw [heq, hn] at hnames
        cases hnames
      exact ⟨by simpa [Function.update_of_ne hne] using hnames, hlock⟩
  | lock g flags mode hm ho hc =>
      obtain rfl : flags = .lockMethod := hpre
      obtain rfl : mode = .exclusive := by simpa [LockFlags.mode, LockFlags.lockMethod] using hm.symm
      refine ⟨hi.path, ?_, hi.own_path, hi.current, hi.buffer, ?_⟩
      · intro h hconf
        obtain ⟨hnames, hlock⟩ := hi.owns hconf
        refine ⟨hnames, ?_⟩
        by_cases hne : h = g
        · simp [hne]
        · simpa [Function.update_of_ne hne] using hlock
      · intro h hl
        by_cases hne : h = g
        · simp [hne]
        · exact by simpa [Function.update_of_ne hne] using
            hi.exclusive (by simpa [Function.update_of_ne hne] using hl)
  | unlock g ho =>
      have hkept : ∀ {h}, (w.unlockHandle g).confirmed h = true →
          h ≠ g ∧ w.confirmed h = true := by
        intro h hc
        by_cases hne : h = g
        · simp [hne] at hc
        · exact ⟨hne, by simpa [Function.update_of_ne hne] using hc⟩
      refine ⟨hi.path, ?_, fun hc => hi.own_path (hkept hc).2,
        fun hc hd => hi.current (hkept hc).2 hd, hi.buffer, ?_⟩
      · intro h hc
        obtain ⟨hne, hc⟩ := hkept hc
        exact ⟨(hi.owns hc).1, by simpa [Function.update_of_ne hne] using (hi.owns hc).2⟩
      · intro h hl
        by_cases hne : h = g
        · simp [hne] at hl
        · exact by simpa [Function.update_of_ne hne] using
            hi.exclusive (by simpa [Function.update_of_ne hne] using hl)
  | close g ho content hcontent => exact hi.close content
  | seek g ho | flush g ho | truncate g ho =>
      refine ⟨hi.path, hi.owns, hi.own_path, hi.current, ?_, hi.exclusive⟩
      intro h hpath
      by_cases hne : h = g
      · simp [hne]
      · simpa [Function.update_of_ne hne] using hi.buffer hpath
  | write g bytes bufferSize n ho hn =>
      refine ⟨hi.path, hi.owns, hi.own_path, hi.current, ?_, hi.exclusive⟩
      intro h hpath
      have hne : h ≠ g := by
        rintro rfl
        exact hpre (hown ▸ hpath)
      simpa [Function.update_of_ne hne] using hi.buffer hpath
  | compare path i hn =>
      have hmark : ∀ {h}, (w.compare p path i).confirmed h = true →
          w.confirmed h = true ∨ w.Matches p path i h := by
        intro h hc
        simpa using hc
      refine ⟨hi.path, ?_, ?_, ?_, hi.buffer, hi.exclusive⟩
      · intro h hc
        rcases hmark hc with hc | ⟨_, rfl, rfl, hl⟩
        · exact hi.owns hc
        · exact ⟨hn, hi.exclusive hl⟩
      · intro h hc
        rcases hmark hc with hc | ⟨hfh, -, -, -⟩
        · exact hi.own_path hc
        · rw [hw.fh_owner hfh]
          exact hi.path hfh
      · intro h hc hd
        rcases hmark hc with hc | ⟨hfh, -, -, -⟩
        · exact hi.current hc hd
        · rw [hw.fh_owner hfh]
          exact hfh
  | unlink path i hn =>
      obtain ⟨⟨g, hg⟩, hpath⟩ := hpre
      have hkept : ∀ {h b}, (w.unlink p path b).confirmed h = true →
          w.confirmed h = true ∧ h.path ≠ path := by
        intro h b hc
        simp only [unlink_confirmed, Bool.and_eq_true, Bool.not_eq_true', Bool.and_eq_false_iff,
          decide_eq_false_iff_not] at hc
        refine ⟨hc.1, fun heq => ?_⟩
        rcases hpath with hlock | hpid
        · -- the unlinking instance owns the path, so `h` is its handle
          have hgp : g.path = path := Option.some.inj ((hi.path hg.1).symm.trans hlock)
          have hgh : h = g :=
            (heq ▸ hi.owns hc.1).unique hw.fs (hgp ▸ hi.owns hg.2)
          rcases hc.2 with hne | hne
          · exact hne (hgh ▸ hw.fh_owner hg.1)
          · exact hne heq
        · exact hcfg.apart hpid (heq ▸ hi.own_path hc.1)
      refine ⟨hi.path, ?_, fun hc => hi.own_path (hkept hc).1,
        fun hc hd => hi.current (hkept hc).1 hd, hi.buffer, hi.exclusive⟩
      intro h hc
      obtain ⟨hc, hne⟩ := hkept hc
      exact ⟨by simpa [Function.update_of_ne hne] using (hi.owns hc).1, (hi.owns hc).2⟩

end Ownership

/-! ## What fault-free instances keep -/

/-- The bytes the instance publishes as its pid, or none. -/
def Publishes (cfg : Config ι) (p : ι) (content : List UInt8) : Prop :=
  ∃ self : PidFileLock, cfg.object p = .pidFileLock self ∧ (content = [] ∨ content = self.pidText)

/-- The pid of an instance with this pid path. -/
def HolderPid (cfg : Config ι) (path : Option Path) (q : ι) (n : Int) : Prop :=
  ∃ self : PidFileLock, cfg.object q = .pidFileLock self ∧ (cfg.object q).pidPath = path ∧
    n = self.getpid.toNat

/-- What fault-free instances keep.  A pid file has been created by a verified
instance and holds its pid or nothing; lock files are nobody's pid file. -/
structure Tidy (cfg : Config ι) (w : World ι) : Prop where
  dropped : ∀ {h}, w.dropped h = true → h ∉ w.opened
  held : ∀ {p}, w.held p = true → ∃ h, w.Verified p h
  lock_names : ∀ {p path k}, (cfg.object p).lockPath = some path → w.names path = some k →
    w.creator k = none
  lock_opened : ∀ {h}, h ∈ w.opened → (cfg.object h.owner).lockPath = some h.path →
    w.creator h.ino = none
  published : ∀ {p path k}, (cfg.object p).pidPath = some path → w.names path = some k →
    ∃ q h, (cfg.object q).pidPath = some path ∧ w.Verified q h ∧ w.creator k = some q
  content : ∀ {k q}, w.creator k = some q → Publishes cfg q (w.data k)
  seen : ∀ {q h} r, w.Verified q h → w.seen r q = true
  answer : ∀ {p n}, w.answer p = some (some n) →
    ∃ q, HolderPid cfg (cfg.object p).pidPath q n ∧ w.seen p q = true

/-- Bytes an instance may put into the file of a handle: what is there already,
anything into a file that is no pid file, and its own pid into its own. -/
def MayStore (cfg : Config ι) (p : ι) (w : World ι) (h : Handle ι Path) (content : List UInt8) :
    Prop :=
  content = w.data h.ino ∨ w.creator h.ino = none ∨
    w.creator h.ino = some p ∧ Publishes cfg p content

/-- What a fault-free instance needs for an operation. -/
def tidyPre (cfg : Config ι) (p : ι) (w : World ι) : Op ι → Prop
  | .discardLock => w.fh p = none
  | .drop h => h ∉ w.opened
  | .openFile path kind => (cfg.object p).pidPath = some path → kind ≠ .read →
      ∃ h, w.Verified p h
  | .unlock h => w.confirmed h = false
  | .close h => w.confirmed h = false ∧ MayStore cfg p w h (w.data h.ino ++ w.buffer h)
  | .seek h | .flush h => MayStore cfg p w h (w.data h.ino ++ w.buffer h)
  | .truncate h => MayStore cfg p w h []
  | .write h bytes bufferSize => (w.buffer h ++ bytes).length ≤ bufferSize
  | .unlink path => (cfg.object p).lockPath = some path →
      ∀ pid, (cfg.object p).pidPath = some pid → w.names pid = none
  | .acquired => ∃ h, w.Verified p h
  | .readPidReturns v => ∀ n, v = some n →
      ∃ q, HolderPid cfg (cfg.object p).pidPath q n ∧ w.seen p q = true
  | _ => True

theorem publishes_nil {cfg : Config ι} {p : ι} {path : Path}
    (h : (cfg.object p).pidPath = some path) : Publishes cfg p [] := by
  cases hobject : cfg.object p with
  | pidFileLock self => exact ⟨self, hobject, Or.inl rfl⟩
  | lock self | rLock self | temporaryFileLock self | boundedSemaphore self =>
      rw [hobject] at h
      cases h

section Tidy

variable {cfg : Config ι} {w w' : World ι} {p q : ι} {g h : Handle ι Path} {o : Op ι}

/-- The same facts hold where the same handles are verified. -/
theorem Tidy.transfer (ht : Tidy cfg w) (hverified : ∀ {q g}, w'.Verified q g ↔ w.Verified q g)
    (hopened : ∀ {h}, h ∈ w'.opened → h ∈ w.opened) (hdropped : w'.dropped = w.dropped)
    (hnames : w'.names = w.names) (hdata : w'.data = w.data) (hheld : w'.held = w.held)
    (hcreator : w'.creator = w.creator) (hseen : w'.seen = w.seen)
    (hanswer : w'.answer = w.answer) : Tidy cfg w' := by
  constructor
  · rw [hdropped]
    exact fun hd hmem => ht.dropped hd (hopened hmem)
  · intro p hp
    rw [hheld] at hp
    obtain ⟨g, hg⟩ := ht.held hp
    exact ⟨g, hverified.2 hg⟩
  · rw [hnames, hcreator]
    exact ht.lock_names
  · rw [hcreator]
    exact fun hmem => ht.lock_opened (hopened hmem)
  · intro p path k hpath hn
    rw [hnames] at hn
    obtain ⟨r, g, hr, hg, hk⟩ := ht.published hpath hn
    exact ⟨r, g, hr, hverified.2 hg, by rw [hcreator]; exact hk⟩
  · rw [hcreator, hdata]
    exact ht.content
  · intro q h r hv
    rw [hseen]
    exact ht.seen r (hverified.1 hv)
  · rw [hanswer, hseen]
    exact ht.answer

/-- Storing permitted bytes. -/
theorem Tidy.store (ht : Tidy cfg w) {content : List UInt8} (pending : List UInt8)
    (hstore : MayStore cfg p w h content) : Tidy cfg (w.store h content pending) := by
  refine ⟨ht.dropped, ht.held, ht.lock_names, ht.lock_opened, ht.published, ?_, ht.seen, ht.answer⟩
  intro k q hk
  by_cases hkh : k = h.ino
  · subst hkh
    simp only [store_toFs, Fs.store_data, Function.update_self]
    rcases hstore with rfl | hnone | ⟨hp, hpub⟩
    · exact ht.content hk
    · exact absurd (hnone.symm.trans hk) (by simp)
    · obtain rfl : p = q := Option.some.inj (hp.symm.trans hk)
      exact hpub
  · simpa [Function.update_of_ne hkh] using ht.content hk

/-- Giving up a handle that has not been confirmed. -/
theorem Tidy.discard (ht : Tidy cfg w) (hconf : w.confirmed h = false) :
    Tidy cfg (w.discard h) := by
  have hconfirmed : Function.update w.confirmed h false = w.confirmed := by
    rw [← hconf]
    exact Function.update_eq_self h w.confirmed
  have hverified : ∀ {q g}, (w.discard h).Verified q g ↔ w.Verified q g := by
    intro q g
    simp only [World.Verified, discard_fh, discard_confirmed, hconfirmed]
  exact ht.transfer hverified (fun hmem => (List.mem_filter.1 hmem).1) rfl rfl rfl rfl rfl rfl rfl

/-- Opening a file that exists. -/
theorem Tidy.opened (ht : Tidy cfg w) (hw : w.Wf) {path : Path} {i : Nat}
    (hn : w.names path = some i) : Tidy cfg (w.openAt p path i) := by
  refine ⟨?_, ht.held, ht.lock_names, ?_, ht.published, ht.content, ht.seen, ht.answer⟩
  · intro h hd hmem
    simp only [openAt_toFs, Fs.openAt_opened, List.mem_cons] at hmem
    rcases hmem with rfl | hmem
    · exact absurd (hw.dropped_serial hd) (by simp)
    · exact ht.dropped hd hmem
  · intro h hmem hpath
    simp only [openAt_toFs, Fs.openAt_opened, List.mem_cons] at hmem
    rcases hmem with rfl | hmem
    · exact ht.lock_names hpath hn
    · exact ht.lock_opened hmem hpath

/-- Creating a file: a pid file by a verified instance, or a lock file. -/
theorem Tidy.creates (hcfg : Separated cfg) (ht : Tidy cfg w) (hw : w.Wf) {path : Path} {i : Nat}
    (hn : w.names path = none) (hfresh : w.Fresh i)
    (hpath : (cfg.object p).lockPath = some path ∨ (cfg.object p).pidPath = some path)
    (hpre : (cfg.object p).pidPath = some path → ∃ h, w.Verified p h) :
    Tidy cfg (w.create path i
      (if (cfg.object p).pidPath = some path then some p else none)) := by
  have hnames : ∀ {path' k}, w.names path' = some k → k ≠ i := by
    rintro path' k hk rfl
    rw [hw.fs.names_links, hfresh.1] at hk
    cases hk
  refine ⟨ht.dropped, ht.held, ?_, ?_, ?_, ?_, ht.seen, ht.answer⟩
  · intro q path' k hq hk
    by_cases hp' : path' = path
    · subst hp'
      obtain rfl : i = k := by simpa using hk
      have : (cfg.object p).pidPath ≠ some path' := fun heq => hcfg.apart heq hq
      simp [this]
    · have hk' : w.names path' = some k := by simpa [Function.update_of_ne hp'] using hk
      simpa [Function.update_of_ne (hnames hk')] using ht.lock_names hq hk'
  · intro h hmem hpath
    simpa [Function.update_of_ne (hfresh.2 h hmem)] using ht.lock_opened hmem hpath
  · intro q path' k hq hk
    by_cases hp' : path' = path
    · subst hp'
      obtain rfl : i = k := by simpa using hk
      rcases hpath with hlock | hpid
      · exact absurd hlock (hcfg.apart hq)
      · obtain ⟨h, hh⟩ := hpre hpid
        exact ⟨p, h, hpid, hh, by simp [hpid]⟩
    · have hk' : w.names path' = some k := by simpa [Function.update_of_ne hp'] using hk
      obtain ⟨r, g, hr, hg, hcreator⟩ := ht.published hq hk'
      exact ⟨r, g, hr, hg, by simpa [Function.update_of_ne (hnames hk')] using hcreator⟩
  · intro k q hk
    by_cases hki : k = i
    · subst hki
      simp only [create_creator, Function.update_self, Option.ite_none_right_eq_some,
        Option.some.injEq] at hk
      obtain ⟨hpid, rfl⟩ := hk
      simp only [create_toFs, Fs.create_data, Function.update_self]
      exact publishes_nil hpid
    · simp only [create_creator, Function.update_of_ne hki] at hk
      simpa [Function.update_of_ne hki] using ht.content hk

theorem Tidy.compares (hw : w.Wf) (ht : Tidy cfg w) {path : Path} {i : Nat} :
    Tidy cfg (w.compare p path i) := by
  have hmono : ∀ {q g}, w.Verified q g → (w.compare p path i).Verified q g :=
    fun hg => ⟨hg.1, by simp [hg.2]⟩
  refine ⟨ht.dropped, ?_, ht.lock_names, ht.lock_opened, ?_, ht.content, ?_, ?_⟩
  · intro q hq
    obtain ⟨g, hg⟩ := ht.held hq
    exact ⟨g, hmono hg⟩
  · intro q path' k hpath hn
    obtain ⟨r, g, hr, hg, hk⟩ := ht.published hpath hn
    exact ⟨r, g, hr, hmono hg, hk⟩
  · rintro q g r ⟨hfh, hconf⟩
    simp only [compare_confirmed, Bool.or_eq_true, decide_eq_true_eq] at hconf
    rcases hconf with hconf | hmatch
    · simp [ht.seen r ⟨hfh, hconf⟩]
    · have hqp : q = p := (hw.fh_owner hfh).symm.trans (hw.fh_owner hmatch.1)
      simp [hqp, hmatch.1, hmatch]
  · intro q n ha
    obtain ⟨r, hr, hs⟩ := ht.answer ha
    exact ⟨r, hr, by simp [hs]⟩

/-- Removing a name: the verified instance gives its own path up, once its pid
file is gone, or removes the pid file. -/
theorem Tidy.unlinks (hw : w.Wf) (hi : Ownership cfg w) (ht : Tidy cfg w)
    {path : Path}
    (hpath : (cfg.object p).lockPath = some path ∨ (cfg.object p).pidPath = some path)
    (hpre : (cfg.object p).lockPath = some path →
      ∀ pid, (cfg.object p).pidPath = some pid → w.names pid = none) :
    Tidy cfg (w.unlink p path ((cfg.object p).lockPath = some path)) := by
  -- a verified handle stays so, unless its own lock path goes
  have hkept : ∀ {q g b}, w.Verified q g → (q = p → (cfg.object p).lockPath ≠ some path) →
      (w.unlink p path b).Verified q g := by
    rintro q g b ⟨hfh, hconf⟩ hne
    refine ⟨hfh, ?_⟩
    simp only [unlink_confirmed, hconf, Bool.true_and, Bool.not_eq_true', Bool.and_eq_false_iff,
      decide_eq_false_iff_not]
    by_cases hqp : g.owner = p
    · refine Or.inr fun heq => ?_
      have hown := hi.path hfh
      rw [← hw.fh_owner hfh, hqp, heq] at hown
      exact hne ((hw.fh_owner hfh).symm.trans hqp) hown
    · exact Or.inl hqp
  refine ⟨ht.dropped, ?_, ?_, ht.lock_opened, ?_, ht.content, ?_, ht.answer⟩
  · intro q hq
    by_cases hlock : (cfg.object p).lockPath = some path
    · have hqp : q ≠ p := by
        rintro rfl
        simp [hlock] at hq
      obtain ⟨g, hg⟩ := ht.held (by simpa [hlock, Function.update_of_ne hqp] using hq)
      exact ⟨g, hkept hg fun heq => absurd heq hqp⟩
    · obtain ⟨g, hg⟩ := ht.held (by simpa [hlock] using hq)
      exact ⟨g, hkept hg fun _ => hlock⟩
  · intro q path' k hq hk
    by_cases hp' : path' = path
    · simp [hp'] at hk
    · exact ht.lock_names hq (by simpa [Function.update_of_ne hp'] using hk)
  · intro q path' k hq hk
    by_cases hp' : path' = path
    · simp [hp'] at hk
    · have hk' : w.names path' = some k := by simpa [Function.update_of_ne hp'] using hk
      obtain ⟨r, g, hr, hg, hcreator⟩ := ht.published hq hk'
      refine ⟨r, g, hr, hkept hg ?_, hcreator⟩
      rintro rfl hlock
      exact absurd (hk'.symm.trans (hpre hlock path' hr)) (by simp)
  · rintro q g r ⟨hfh, hconf⟩
    simp only [unlink_confirmed, Bool.and_eq_true] at hconf
    exact ht.seen r ⟨hfh, hconf.1⟩

/-- One permitted operation keeps the instances tidy. -/
theorem Tidy.change (hcfg : Separated cfg) (hw : w.Wf) (hi : Ownership cfg w) (ht : Tidy cfg w)
    (hown : Own p w o) (hpre : ownershipPre cfg p w o) (htidy : tidyPre cfg p w o)
    (hc : Change cfg p w o w') : Tidy cfg w' := by
  cases hc with
  | same | setAcquiredLock | setAcquireCount =>
      exact ⟨ht.dropped, ht.held, ht.lock_names, ht.lock_opened, ht.published, ht.content, ht.seen,
        ht.answer⟩
  | setInnerLock b =>
      refine ⟨ht.dropped, ?_, ht.lock_names, ht.lock_opened, ht.published, ht.content, ht.seen,
        ht.answer⟩
      intro q hq
      refine ht.held ?_
      cases b with
      | true => exact hq
      | false =>
          by_cases hqp : q = p
          · simp [hqp] at hq
          · simpa [Function.update_of_ne hqp] using hq
  | setFh v =>
      have hverified : ∀ {q g}, (w.setFh p v).Verified q g ↔ w.Verified q g := by
        intro q g
        by_cases hqp : q = p
        · subst hqp
          simp only [World.Verified, setFh_fh, Function.update_self, setFh_confirmed]
          constructor
          · rintro ⟨rfl, hconf⟩
            obtain ⟨ho, -, hd⟩ := hown g rfl
            exact ⟨ho ▸ hi.current hconf hd, hconf⟩
          · rintro ⟨hfh, hconf⟩
            rcases hpre.1 g hfh with hv | hfalse
            · exact ⟨hv, hconf⟩
            · exact absurd (hfalse.symm.trans hconf) (by simp)
        · simp [World.Verified, Function.update_of_ne hqp]
      exact ht.transfer hverified id rfl rfl rfl rfl rfl rfl rfl
  | discardLock =>
      have hnone : w.fh p = none := htidy
      have hfh : Function.update w.fh p none = w.fh := by
        rw [← hnone, Function.update_eq_self]
      have hdropped : (w.discardLock p).dropped = w.dropped := by
        funext h
        simp [hnone]
      have hverified : ∀ {q g}, (w.discardLock p).Verified q g ↔ w.Verified q g := by
        intro q g
        simp only [World.Verified, discardLock_fh, hfh, discardLock_confirmed]
      exact ht.transfer hverified id hdropped rfl rfl rfl rfl rfl rfl
  | drop g =>
      refine ⟨?_, ht.held, ht.lock_names, ht.lock_opened, ht.published, ht.content, ht.seen,
        ht.answer⟩
      intro h hd
      by_cases hne : h = g
      · exact hne ▸ htidy
      · exact ht.dropped (by simpa [Function.update_of_ne hne] using hd)
  | openAt path kind i hn => exact ht.opened hw hn
  | openEmptied path i hn => exact absurd rfl hown
  | create path kind i hn hfresh hkind =>
      exact (ht.creates hcfg hw hn hfresh hpre fun hpid => htidy hpid hkind).opened
        ⟨hw.fs.create hn hfresh, hw.fh_owner, hw.fh_serial, hw.fh_dropped, hw.dropped_serial⟩
        (by simp)
  | lock g flags mode hm ho hc =>
      exact ⟨ht.dropped, ht.held, ht.lock_names, ht.lock_opened, ht.published, ht.content, ht.seen,
        ht.answer⟩
  | unlock g ho =>
      have hconfirmed : Function.update w.confirmed g false = w.confirmed := by
        rw [← (htidy : w.confirmed g = false)]
        exact Function.update_eq_self g w.confirmed
      have hverified : ∀ {q k}, (w.unlockHandle g).Verified q k ↔ w.Verified q k := by
        intro q k
        simp only [World.Verified, unlockHandle_fh, unlockHandle_confirmed, hconfirmed]
      exact ht.transfer hverified id rfl rfl rfl rfl rfl rfl rfl
  | close g ho content hcontent =>
      refine (ht.store (p := p) [] ?_).discard htidy.1
      rcases hcontent with rfl | rfl
      · exact htidy.2
      · exact Or.inl rfl
  | seek g ho | flush g ho => exact ht.store [] htidy
  | truncate g ho =>
      have := ht.store [] htidy
      exact ⟨this.dropped, this.held, this.lock_names, this.lock_opened, this.published,
        this.content, this.seen, this.answer⟩
  | write g bytes bufferSize n ho hn =>
      have hzero : n = 0 := hn.resolve_right (Nat.not_lt.2 htidy)
      have hmay : MayStore cfg p w g (w.data g.ino ++ (w.buffer g ++ bytes).take n) :=
        Or.inl (by simp [hzero])
      have := ht.store ((w.buffer g ++ bytes).drop n) hmay
      exact ⟨this.dropped, this.held, this.lock_names, this.lock_opened, this.published,
        this.content, this.seen, this.answer⟩
  | compare path i hn => exact ht.compares hw
  | unlink path i hn => exact ht.unlinks hw hi hpre.2 htidy
  | acquired =>
      refine ⟨ht.dropped, ?_, ht.lock_names, ht.lock_opened, ht.published, ht.content, ht.seen,
        ht.answer⟩
      intro q hq
      by_cases hqp : q = p
      · exact hqp ▸ htidy
      · exact ht.held (by simpa [Function.update_of_ne hqp] using hq)
  | readPidCalled =>
      refine ⟨ht.dropped, ht.held, ht.lock_names, ht.lock_opened, ht.published, ht.content, ?_, ?_⟩
      · intro q h r hv
        have hfh : w.fh q = some h := hv.1
        have hconf : w.confirmed h = true := hv.2
        by_cases hrp : r = p
        · simp [hrp, World.verified, hfh, hconf]
        · simpa [Function.update_of_ne hrp] using ht.seen r hv
      · intro q n ha
        by_cases hqp : q = p
        · simp [hqp] at ha
        · obtain ⟨r, hr, hs⟩ := ht.answer (by simpa [Function.update_of_ne hqp] using ha)
          exact ⟨r, hr, by simpa [Function.update_of_ne hqp] using hs⟩
  | readPidReturns v =>
      refine ⟨ht.dropped, ht.held, ht.lock_names, ht.lock_opened, ht.published, ht.content,
        ht.seen, ?_⟩
      intro q n ha
      by_cases hqp : q = p
      · subst hqp
        exact htidy n (by simpa using ha)
      · exact ht.answer (by simpa [Function.update_of_ne hqp] using ha)

end Tidy

/-! ## The contract -/

/-- What the others leave alone while nothing fails: the name of a verified
instance's pid file, and the content of the pid file an instance has open. -/
def PidUntouched (cfg : Config ι) (p : ι) (w w' : World ι) : Prop :=
  (∀ h path, h.owner = p → w.dropped h = false → w.Verified p h →
    (cfg.object p).pidPath = some path → w'.names path = w.names path) ∧
  ∀ h : Handle ι Path, h.owner = p → w.dropped h = false → h ∈ w.opened →
    w.creator h.ino = some p → w'.data h.ino = w.data h.ino

section PidUntouched

variable {cfg : Config ι} {w w' w'' : World ι} {p q : ι} {o : Op ι}

theorem PidUntouched.trans (hu : Undisturbed p w w') (h₁ : PidUntouched cfg p w w')
    (h₂ : PidUntouched cfg p w' w'') : PidUntouched cfg p w w'' := by
  constructor
  · intro h path ho hd hv hpath
    have hsame := hu.handle h ho hd
    have hv' : w'.Verified p h := ⟨hu.fh.trans hv.1, hsame.confirmed.trans hv.2⟩
    exact (h₂.1 h path ho (hsame.dropped.trans hd) hv' hpath).trans (h₁.1 h path ho hd hv hpath)
  · intro h ho hd hmem hcreator
    have hsame := hu.handle h ho hd
    exact (h₂.2 h ho (hsame.dropped.trans hd) (hsame.file.mem.2 hmem)
      ((hsame.creator hmem).trans hcreator)).trans (h₁.2 h ho hd hmem hcreator)

/-- A store of permitted bytes leaves the pid files of the others alone. -/
theorem MayStore.untouched {h : Handle ι Path} {content : List UInt8}
    (hstore : MayStore cfg p w h content) (pending : List UInt8) (hq : q ≠ p) :
    PidUntouched cfg q w (w.store h content pending) := by
  refine ⟨fun _ _ _ _ _ _ => rfl, fun g _ _ _ hcreator => ?_⟩
  by_cases hgh : g.ino = h.ino
  · simp only [store_toFs, Fs.store_data, hgh, Function.update_self]
    rw [hgh] at hcreator
    rcases hstore with rfl | hnone | ⟨hp, -⟩
    · rfl
    · exact absurd (hnone.symm.trans hcreator) (by simp)
    · exact absurd (Option.some.inj (hcreator.symm.trans hp)) hq
  · simp [Function.update_of_ne hgh]

/-- A permitted operation leaves the pid files of the others alone. -/
theorem PidUntouched.of_change (hcfg : Separated cfg) (hw : w.Wf) (hi : Ownership cfg w)
    (hown : Own p w o) (hpre : ownershipPre cfg p w o) (htidy : tidyPre cfg p w o) (hc : Change cfg p w o w')
    (hq : q ≠ p) : PidUntouched cfg q w w' := by
  -- a verified instance that may touch this pid path is `q` itself
  have hforeign : ∀ {g h path}, w.Verified p g → w.Verified q h →
      (cfg.object p).lockPath = some path ∨ (cfg.object p).pidPath = some path →
      (cfg.object q).pidPath ≠ some path := by
    rintro g h path hg hh (hlock | hpid) hqpid
    · exact hcfg.apart hqpid hlock
    · exact hq (hi.unique hw hh hg (lockPath_of_pidPath hqpid hpid))
  cases hc with
  | openEmptied path i hn => exact absurd rfl hown
  | create path kind i hn hfresh hkind =>
      refine ⟨?_, fun g _ _ hmem _ => ?_⟩
      · intro h path' _ _ hv hpath'
        have hne : path' ≠ path := by
          rintro rfl
          rcases hpre with hlock | hpid
          · exact hcfg.apart hpath' hlock
          · obtain ⟨g, hg⟩ := htidy hpid hkind
            exact hforeign hg hv (Or.inr hpid) hpath'
        simp [Function.update_of_ne hne]
      · simp [Function.update_of_ne (hfresh.2 g hmem)]
  | close g ho content hcontent =>
      refine MayStore.untouched ?_ [] hq
      rcases hcontent with rfl | rfl
      · exact htidy.2
      · exact Or.inl rfl
  | seek g ho | flush g ho | truncate g ho => exact MayStore.untouched htidy [] hq
  | write g bytes bufferSize n ho hn =>
      have hzero : n = 0 := hn.resolve_right (Nat.not_lt.2 htidy)
      have hmay : MayStore cfg p w g (w.data g.ino ++ (w.buffer g ++ bytes).take n) :=
        Or.inl (by simp [hzero])
      exact hmay.untouched ((w.buffer g ++ bytes).drop n) hq
  | unlink path i hn =>
      refine ⟨?_, fun _ _ _ _ _ => rfl⟩
      intro h path' _ _ hv hpath'
      obtain ⟨⟨g, hg⟩, hpath⟩ := hpre
      have hne : path' ≠ path := by
        rintro rfl
        exact hforeign hg hv hpath hpath'
      simp [Function.update_of_ne hne]
  | _ => exact ⟨fun _ _ _ _ _ _ => rfl, fun _ _ _ _ _ => rfl⟩

end PidUntouched

/-- Between calls of a fault-free run an instance holds nothing or is verified. -/
def AtRest (cfg : Config ι) (p : ι) (w : World ι) : Prop :=
  (w.fh p = none ∧ ((cfg.object p).pidPath ≠ none → w.inner p = false)) ∨
    ∃ h, w.Verified p h ∧ w.held p = true

/-- The instance's `release` would find nothing to do, or a handle that has passed
the inode comparison. -/
def Settled (cfg : Config ι) (p : ι) (w : World ι) : Prop :=
  (match (cfg.object p).pidPath with
    | none => w.fh p = none
    | some _ => w.inner p = false) ∨ ∃ h, w.Verified p h

theorem AtRest.settled {cfg : Config ι} {p : ι} {w : World ι} (h : AtRest cfg p w) :
    Settled cfg p w := by
  refine h.imp (fun hrest => ?_) fun ⟨h, hv, _⟩ => ⟨h, hv⟩
  cases hpid : (cfg.object p).pidPath with
  | none => exact hrest.1
  | some path => exact hrest.2 (by simp [hpid])

theorem verified_stable {p : ι} {h : Handle ι Path} {w w' : World ι} (hw : w.Wf)
    (hu : Undisturbed p w w') (hv : w.Verified p h) : w'.Verified p h :=
  ⟨hu.fh.trans hv.1, (hu.handle h (hw.fh_owner hv.1) (hw.fh_dropped hv.1)).confirmed.trans hv.2⟩

theorem settled_stable {cfg : Config ι} {p : ι} {w w' : World ι} (hw : w.Wf)
    (hu : Undisturbed p w w') (hs : Settled cfg p w) : Settled cfg p w' := by
  refine hs.imp (fun hrest => ?_) fun ⟨h, hv⟩ => ⟨h, verified_stable hw hu hv⟩
  split at hrest
  · exact hu.fh.trans hrest
  · exact hu.inner.trans hrest

/-- The contract of `TemporaryFileLock`s and `PidFileLock`s.  `clean` says that
nothing fails and no call is interrupted. -/
def ownershipContract (cfg : Config ι) (hcfg : Separated cfg) (clean : Prop)
    (g : Guard (machine cfg)) : Contract cfg g where
  inv w := Ownership cfg w ∧ (clean → Tidy cfg w)
  rely p w w' := clean → PidUntouched cfg p w w'
  pre p c w o := ownershipPre cfg p w o ∧ (clean → tidyPre cfg p w o) ∧
    (IsRelease c → Harmless w o)
  idle p w := clean → AtRest cfg p w
  rely_refl _ _ := fun _ => ⟨fun _ _ _ _ _ _ => rfl, fun _ _ _ _ _ => rfl⟩
  rely_trans := fun hu h₁ h₂ hclean => (h₁ hclean).trans hu (h₂ hclean)
  inv_change := fun hw hi hown hpre _ hc =>
    ⟨hi.1.change hcfg hw hown hpre.1 hc, fun hclean =>
      (hi.2 hclean).change hcfg hw hi.1 hown hpre.1 (hpre.2.1 hclean) hc⟩
  rely_change := fun hw hi hown hpre _ hc _ hq hclean =>
    .of_change hcfg hw hi.1 hown hpre.1 (hpre.2.1 hclean) hc hq
  inv_finalize := by
    intro e w w' hw hi he
    obtain ⟨ho, hd, rfl⟩ := Config.finalize_cases he
    exact ⟨hi.1.close _, fun hclean => absurd ho ((hi.2 hclean).dropped hd)⟩
  rely_finalize := by
    intro e w w' hw hi he q hclean
    obtain ⟨ho, hd, -⟩ := Config.finalize_cases he
    exact absurd ho ((hi.2 hclean).dropped hd)
  idle_stable := by
    intro p w w' hw _ _ hu _ hidle hclean
    rcases hidle hclean with ⟨hfh, hinner⟩ | ⟨h, hv, hheld⟩
    · exact Or.inl ⟨hu.fh.trans hfh, fun hpid => hu.inner.trans (hinner hpid)⟩
    · exact Or.inr ⟨h, verified_stable hw hu hv, hu.held.trans hheld⟩

end Portalocker
