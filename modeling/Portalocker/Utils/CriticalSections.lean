import Portalocker.Utils.Contract
set_option autoImplicit false
set_option linter.unusedSectionVars false

/-!
# Critical sections of one file

Instances of `Lock` on one file: each section locks the file, writes through the
handle and releases.  Written bytes wait in the buffer of the handle, `release`
unlocks before it closes, and only `close` flushes; so a section's last bytes are
in the file when its lock is dropped only if the caller has flushed them, which
is what the documentation asks of it.  Under that condition the file always
holds what the sections wrote, one after another in the order of their locks,
whatever fails and whoever is interrupted.
-/

namespace Portalocker

open Posix Interleaving Interleaving.Machine World Contract

variable {ι : Type} [DecidableEq ι]

namespace World

/-- The content of the file at `path`; a missing file has none. -/
def content (w : World ι) (path : Path) : List UInt8 :=
  match w.names path with
  | some i => w.data i
  | none => []

/-- What is in the buffer of the latest section. -/
def pending (w : World ι) : List UInt8 :=
  match w.sections with
  | s :: _ => w.buffer s.handle
  | [] => []

end World

/-- The content after sections that ran one after another on a file with content
`base`, the latest section first. -/
def replay (base : List UInt8) : List (Section ι) → List UInt8
  | [] => base
  | s :: earlier => (if s.truncated then [] else replay base earlier) ++ s.bytes

/-- All instances are `Lock`s on the file `f` with the default flags and a mode
that appends. -/
def OneFile (cfg : Config ι) (f : Path) : Prop :=
  ∀ p, ∃ self : Lock, cfg.object p = .lock self ∧ self.filename = f ∧
    self.flags = .lockMethod ∧ openKind self.mode = some .append

/-- A world in which no lock has been touched and the file has content `base`. -/
structure Untaken (f : Path) (base : List UInt8) (w : World ι) : Prop where
  wf : w.Wf
  opened : w.opened = []
  fh : ∀ p, w.fh p = none
  sections : w.sections = []
  content : w.content f = base

/-- The caller has flushed what it wrote before it releases. -/
def flushed (cfg : Config ι) : Guard (machine cfg) where
  call := fun p (c : Call) (w : World ι) =>
    c = .release ∨ c = .exit → ∀ h, w.fh p = some h → w.buffer h = []
  op := fun _ _ _ _ => True

/-! ## The invariant -/

/-- What the instances keep: only the latest section can be locked, only its
handle can have bytes waiting, which nobody has given up, and the file followed by
these is the replay of all sections. -/
structure SectionsInv (f : Path) (base : List UInt8) (w : World ι) : Prop where
  named : ∀ {h}, h ∈ w.opened → w.names f = some h.ino
  buffered : ∀ {h}, w.lock h = none → w.buffer h = []
  latest : ∀ {h}, w.lock h ≠ none → ∃ s earlier, w.sections = s :: earlier ∧ s.handle = h
  distinct : (w.sections.map Section.handle).Nodup
  serial : ∀ {s}, s ∈ w.sections → s.handle.serial < w.serial s.handle.owner
  dropped : ∀ {h}, w.dropped h = true → w.buffer h = []
  created : w.names f = none → w.sections = []
  replayed : w.content f ++ w.pending = replay base w.sections

variable {f : Path} {base : List UInt8} {w : World ι} {h : Handle ι Path}

theorem content_of_named {i : Nat} (hn : w.names f = some i) : w.content f = w.data i := by
  simp [World.content, hn]

theorem pending_of_sections {s : Section ι} {earlier : List (Section ι)}
    (hsec : w.sections = s :: earlier) : w.pending = w.buffer s.handle := by
  simp [World.pending, hsec]

/-- Storing through the handle of the latest section. -/
theorem SectionsInv.store (hi : SectionsInv f base w) (ho : h ∈ w.opened)
    (hl : w.lock h ≠ none) (content pending : List UInt8)
    (hgiven : w.dropped h = true → pending = []) {g : Section ι → Section ι}
    (hg : ∀ s, (g s).handle = s.handle)
    (hreplay : ∀ s earlier, w.sections = s :: earlier → s.handle = h →
      content ++ pending = replay base (g s :: earlier)) :
    SectionsInv f base ((w.store h content pending).record h g) := by
  obtain ⟨s, earlier, hsec, hs⟩ := hi.latest hl
  have hnotin : ∀ t ∈ earlier, t.handle ≠ h := by
    intro t ht heq
    have := hi.distinct
    rw [hsec, List.map_cons, List.nodup_cons] at this
    exact this.1 (hs ▸ heq ▸ List.mem_map_of_mem ht)
  have hkept : earlier.map (fun t => if t.handle = h then g t else t) = earlier := by
    calc earlier.map (fun t => if t.handle = h then g t else t)
        = earlier.map id := List.map_congr_left fun t ht => by simp [hnotin t ht]
      _ = earlier := List.map_id _
  have hrecord : ((w.store h content pending).record h g).sections = g s :: earlier := by
    simp [hsec, hs, hkept]
  have hmap : ((w.store h content pending).record h g).sections.map Section.handle =
      w.sections.map Section.handle := by
    rw [hrecord, hsec, List.map_cons, List.map_cons, hg]
  have hnamed : w.names f = some h.ino := hi.named ho
  constructor
  · exact fun hmem => hi.named hmem
  · intro k hk
    have hne : k ≠ h := fun heq => hl (heq ▸ hk)
    simpa [Function.update_of_ne hne] using hi.buffered hk
  · intro k hk
    obtain ⟨s', earlier', hsec', hs'⟩ := hi.latest hk
    have hsame : s = s' := by
      rw [hsec] at hsec'
      exact (List.cons.inj hsec').1
    exact ⟨g s, earlier, hrecord, by rw [hg, hsame, hs']⟩
  · rw [hmap]
    exact hi.distinct
  · intro t ht
    have hmem : t.handle ∈ w.sections.map Section.handle := hmap ▸ List.mem_map_of_mem ht
    obtain ⟨u, hu, heq⟩ := List.mem_map.1 hmem
    exact heq ▸ hi.serial hu
  · intro k hk
    have hdropped : w.dropped k = true := hk
    by_cases hne : k = h
    · simp [hne, hgiven (hne ▸ hdropped)]
    · simpa [Function.update_of_ne hne] using hi.dropped hdropped
  · intro hnone
    exact absurd (hnamed.symm.trans hnone) (by simp)
  · have hnamed' : ((w.store h content pending).record h g).names f = some h.ino := hnamed
    rw [content_of_named hnamed', pending_of_sections hrecord, hrecord, hg, hs,
      ← hreplay s earlier hsec hs]
    simp

theorem record_id : w.record h id = w := by
  unfold World.record
  simp

/-- Storing what is there already. -/
theorem store_same {content : List UInt8} (hb : w.buffer h = [])
    (hc : content = w.data h.ino ++ w.buffer h ∨ content = w.data h.ino) :
    (w.store h content []).toFs = w.toFs := by
  have hdata : content = w.data h.ino := by simpa [hb] using hc
  have hbuffer : Function.update w.buffer h [] = w.buffer := by
    rw [← hb]
    exact Function.update_eq_self h w.buffer
  simp only [store_toFs, Fs.store, hdata, hbuffer, Function.update_eq_self]

/-- The section of a handle that is not locked has nothing waiting. -/
theorem SectionsInv.pending_free (hi : SectionsInv f base w)
    (hfree : ∀ k, w.lock k = none) : w.pending = [] := by
  unfold World.pending
  split
  · exact hi.buffered (hfree _)
  · rfl

/-- The invariant speaks of the file system, the sections and the dropped handles
only. -/
theorem SectionsInv.congr {w' : World ι} (hi : SectionsInv f base w) (hfs : w'.toFs = w.toFs)
    (hsec : w'.sections = w.sections) (hdropped : w'.dropped = w.dropped) :
    SectionsInv f base w' := by
  have hcontent : w'.content f = w.content f := by simp [World.content, hfs]
  have hpending : w'.pending = w.pending := by simp [World.pending, hfs, hsec]
  constructor
  · rw [hfs]
    exact hi.named
  · rw [hfs]
    exact hi.buffered
  · rw [hfs, hsec]
    exact hi.latest
  · rw [hsec]
    exact hi.distinct
  · rw [hfs, hsec]
    exact hi.serial
  · rw [hfs, hdropped]
    exact hi.dropped
  · rw [hfs, hsec]
    exact hi.created
  · rw [hcontent, hpending, hsec]
    exact hi.replayed

/-- Opening the file. -/
theorem SectionsInv.opened {p : ι} {path : Path} {i : Nat} (hi : SectionsInv f base w)
    (hn : w.names path = some i) (hpath : path = f) :
    SectionsInv f base (w.openAt p path i) := by
  subst hpath
  refine ⟨?_, hi.buffered, hi.latest, hi.distinct, ?_, hi.dropped, hi.created, hi.replayed⟩
  · intro k hk
    simp only [openAt_toFs, Fs.openAt_opened, List.mem_cons] at hk
    rcases hk with rfl | hk
    · exact hn
    · exact hi.named hk
  · intro s hs
    have hlt := hi.serial hs
    by_cases hp : s.handle.owner = p
    · simp only [openAt_toFs, Fs.openAt_serial, hp, Function.update_self] at hlt ⊢
      omega
    · simpa [Function.update_of_ne hp] using hlt

/-- Creating the file, which was empty as long as it was missing. -/
theorem SectionsInv.creates {i : Nat} {creator : Option ι} (hi : SectionsInv f base w)
    (hn : w.names f = none) : SectionsInv f base (w.create f i creator) := by
  have hclosed : ∀ k, k ∉ w.opened := fun k hk => by simpa [hn] using hi.named hk
  have hsec : w.sections = [] := hi.created hn
  refine ⟨fun hk => absurd hk (hclosed _), hi.buffered, hi.latest, hi.distinct, hi.serial,
    hi.dropped, fun _ => hsec, ?_⟩
  have hreplay := hi.replayed
  simp only [World.content, hn, World.pending, hsec] at hreplay
  simp [World.content, World.pending, hsec, ← hreplay]

/-- A lock can be taken when no handle has it: a section begins. -/
theorem SectionsInv.locks (hi : SectionsInv f base w) (hw : w.Wf) (ho : h ∈ w.opened)
    (hl : w.lock h = none) (hnew : ∀ s ∈ w.sections, s.handle ≠ h)
    (hc : ¬ w.Conflicts h .exclusive) : SectionsInv f base (w.lockHandle h .exclusive) := by
  -- every open handle is on the file's one inode, so any lock would be in the way
  have hfree : ∀ k, w.lock k = none := by
    intro k
    by_contra hk
    obtain ⟨m, hm⟩ := Option.ne_none_iff_exists'.1 hk
    have hko : k ∈ w.opened := hw.fs.opened_of_lock hm
    have hino : k.ino = h.ino := Option.some.inj ((hi.named hko).symm.trans (hi.named ho))
    have hne : k ≠ h := fun heq => hk (heq ▸ hl)
    exact hc ⟨k, hko, hne, hino, m, hm, by cases m <;> rfl⟩
  refine ⟨hi.named, ?_, ?_, ?_, ?_, hi.dropped, ?_, ?_⟩
  · exact fun {k} _ => hi.buffered (hfree k)
  · intro k hk
    have hne : k = h := by
      by_contra hne
      simp [Function.update_of_ne hne, hfree k] at hk
    exact ⟨_, _, rfl, hne.symm⟩
  · rw [lockHandle_sections, List.map_cons, List.nodup_cons]
    refine ⟨fun hmem => ?_, hi.distinct⟩
    obtain ⟨s, hs, heq⟩ := List.mem_map.1 hmem
    exact hnew s hs heq
  · intro s hs
    rcases List.mem_cons.1 hs with rfl | hs
    · exact hw.fs.serial_lt ho
    · exact hi.serial hs
  · intro hnone
    exact absurd ((hi.named ho).symm.trans hnone) (by simp)
  · have hreplay := hi.replayed
    rw [hi.pending_free hfree, List.append_nil] at hreplay
    have hcontent : (w.lockHandle h .exclusive).content f = w.content f := rfl
    rw [hcontent, hreplay]
    simp [World.pending, replay, hi.buffered hl]

/-- Giving up a handle with nothing in its buffer. -/
theorem SectionsInv.discard (hi : SectionsInv f base w) (hb : w.buffer h = []) :
    SectionsInv f base (w.discard h) := by
  refine ⟨fun hk => hi.named (List.mem_filter.1 hk).1, ?_, ?_, hi.distinct, hi.serial,
    hi.dropped, hi.created, hi.replayed⟩
  · intro k hk
    by_cases hne : k = h
    · exact hne ▸ hb
    · exact hi.buffered (by simpa [Function.update_of_ne hne] using hk)
  · intro k hk
    by_cases hne : k = h
    · simp [hne] at hk
    · exact hi.latest (by simpa [Function.update_of_ne hne] using hk)

/-- Closing a handle with nothing in its buffer, or finalizing it. -/
theorem SectionsInv.close (hi : SectionsInv f base w) (hb : w.buffer h = [])
    {content : List UInt8}
    (hcontent : content = w.data h.ino ++ w.buffer h ∨ content = w.data h.ino) :
    SectionsInv f base ((w.store h content []).discard h) :=
  (hi.congr (store_same hb hcontent) rfl rfl).discard (by simp)

/-- Only the file itself is opened, only new handles are locked, and only the
holder of the lock writes; a buffer is empty when its handle is unlocked, closed or
given up. -/
def sectionsPre (f : Path) (w : World ι) : Op ι → Prop
  | .openFile path kind => path = f ∧ kind = .append
  | .flock h flags =>
      flags = .lockMethod ∧ w.lock h = none ∧ ∀ s ∈ w.sections, s.handle ≠ h
  | .unlock h | .close h | .drop h => w.buffer h = []
  | .truncate h | .write h _ _ => h ∈ w.opened → w.lock h ≠ none ∧ w.dropped h = false
  | .discardLock | .unlink _ => False
  | _ => True

/-- One permitted operation keeps the invariant. -/
theorem SectionsInv.change {cfg : Config ι} {p : ι} {o : Op ι} {w' : World ι} (hw : w.Wf)
    (hi : SectionsInv f base w) (hpre : sectionsPre f w o) (hc : Change cfg p w o w') :
    SectionsInv f base w' := by
  cases hc with
  | same | setFh | setInnerLock | setAcquiredLock | setAcquireCount | acquired | readPidCalled
    | readPidReturns =>
      exact ⟨hi.named, hi.buffered, hi.latest, hi.distinct, hi.serial, hi.dropped, hi.created,
        hi.replayed⟩
  | compare path i hn =>
      exact ⟨hi.named, hi.buffered, hi.latest, hi.distinct, hi.serial, hi.dropped, hi.created,
        hi.replayed⟩
  | discardLock => exact hpre.elim
  | unlink path i hn => exact hpre.elim
  | drop g =>
      refine ⟨hi.named, hi.buffered, hi.latest, hi.distinct, hi.serial, ?_, hi.created,
        hi.replayed⟩
      intro k hk
      by_cases hne : k = g
      · exact hne ▸ hpre
      · exact hi.dropped (by simpa [Function.update_of_ne hne] using hk)
  | openAt path kind i hn => exact hi.opened hn hpre.1
  | openEmptied path i hn => exact absurd hpre.2 (by decide)
  | create path kind i hn hfresh hkind =>
      obtain rfl : path = f := hpre.1
      exact (hi.creates hn).opened (by simp) rfl
  | lock g flags mode hm ho hc =>
      obtain ⟨rfl, hl, hnew⟩ := hpre
      obtain rfl : mode = .exclusive := by
        simpa [LockFlags.mode, LockFlags.lockMethod] using hm.symm
      exact hi.locks hw ho hl hnew hc
  | unlock g ho =>
      refine ⟨hi.named, ?_, ?_, hi.distinct, hi.serial, hi.dropped, hi.created, hi.replayed⟩
      · intro k hk
        by_cases hne : k = g
        · exact hne ▸ hpre
        · exact hi.buffered (by simpa [Function.update_of_ne hne] using hk)
      · intro k hk
        by_cases hne : k = g
        · simp [hne] at hk
        · exact hi.latest (by simpa [Function.update_of_ne hne] using hk)
  | close g ho content hcontent => exact hi.close hpre hcontent
  | seek g ho | flush g ho =>
      by_cases hl : w.lock g = none
      · exact hi.congr (store_same (hi.buffered hl) (Or.inl rfl)) rfl rfl
      · rw [← record_id (w := w.store g _ []) (h := g)]
        refine hi.store ho hl _ _ (fun _ => rfl) (fun _ => rfl) ?_
        intro s earlier hsec hs
        have hreplay := hi.replayed
        rw [content_of_named (hi.named ho), pending_of_sections hsec, hsec, hs] at hreplay
        simpa using hreplay
  | truncate g ho =>
      exact hi.store ho (hpre ho).1 [] [] (fun _ => rfl) (fun _ => rfl) fun _ _ _ _ => by
        simp [replay]
  | write g bytes bufferSize n ho hn =>
      have hlive : w.dropped g ≠ true := by simp [(hpre ho).2]
      refine hi.store ho (hpre ho).1 _ _ (fun hd => absurd hd hlive) (fun _ => rfl) ?_
      intro s earlier hsec hs
      have hreplay := hi.replayed
      rw [content_of_named (hi.named ho), pending_of_sections hsec, hsec, hs] at hreplay
      simp only [replay, List.append_assoc, List.take_append_drop] at hreplay ⊢
      rw [← List.append_assoc, hreplay, List.append_assoc]

/-! ## The contract -/

/-- The contract of the instances of one file. -/
def sectionsContract (cfg : Config ι) (f : Path) (base : List UInt8) :
    Contract cfg (flushed cfg) where
  inv := SectionsInv f base
  rely p w w' := ∀ s ∈ w'.sections, s.handle.owner = p → ∃ t ∈ w.sections, t.handle = s.handle
  pre _ _ w o := sectionsPre f w o
  idle p w := ∀ h, w.fh p = some h → h ∈ w.opened → w.lock h ≠ none
  rely_refl _ _ := fun s hs _ => ⟨s, hs, rfl⟩
  rely_trans := by
    intro p w₁ w₂ w₃ _ h₁ h₂ s hs ho
    obtain ⟨t, ht, hts⟩ := h₂ s hs ho
    obtain ⟨u, hu, hut⟩ := h₁ t ht (by rw [hts]; exact ho)
    exact ⟨u, hu, hut.trans hts⟩
  inv_change := fun hw hi _ hpre _ hc => hi.change hw hpre hc
  rely_change := by
    intro p c o w w' hw hi hown hpre _ hc q hq s hs ho
    cases hc with
    | lock g flags mode hm hopen hconf =>
        rcases List.mem_cons.1 hs with rfl | hs
        · exact absurd (ho.symm.trans hown) hq
        · exact ⟨s, hs, rfl⟩
    | truncate g hopen | write g bytes bufferSize n hopen hn =>
        obtain ⟨t, ht, rfl⟩ := List.mem_map.1 hs
        refine ⟨t, ht, ?_⟩
        split <;> rfl
    | unlink path i hn => exact hpre.elim
    | _ => exact ⟨s, hs, rfl⟩
  inv_finalize := by
    intro e w w' _ hi he
    obtain ⟨-, hd, rfl⟩ := Config.finalize_cases he
    exact hi.close (hi.dropped hd) (Or.inl rfl)
  rely_finalize := by
    intro e w w' _ _ he q s hs _
    obtain ⟨-, -, rfl⟩ := Config.finalize_cases he
    exact ⟨s, hs, rfl⟩
  idle_stable := by
    intro p w w' hw hw' _ hu _ hidle h hh
    rw [hu.fh] at hh
    have hkeep := (hu.handle h (hw.fh_owner hh) (hw.fh_dropped hh)).file
    rw [hkeep.lock]
    exact fun hopen => hidle h hh (hkeep.mem.1 hopen)

/-! ## The calls keep the contract -/

section Triples

variable {cfg : Config ι} {p : ι} {c : Call}

/-- The client's handle has not begun a section. -/
def Unused (p : ι) (h : Handle ι Path) (w : World ι) : Prop :=
  h.owner = p ∧ ∀ s ∈ w.sections, s.handle ≠ h

instance stable_unused (h : Handle ι Path) :
    ((sectionsContract cfg f base).ctx p c).Stable (Unused p h) := by
  refine stable_of ?_
  rintro w w' _ _ _ _ hr ⟨ho, hs⟩
  refine ⟨ho, fun s hmem heq => ?_⟩
  obtain ⟨t, ht, hts⟩ := hr s hmem (heq ▸ ho)
  exact hs t ht (hts.trans heq)

/-- A handle the client has not stored, with nothing in its buffer. -/
def Unstored (p : ι) (h : Handle ι Path) (w : World ι) : Prop :=
  w.fh p = none ∧ BufferIs p h [] w ∧ h.serial < w.serial p

/-- It is open and not locked yet. -/
def Started (p : ι) (h : Handle ι Path) (w : World ι) : Prop :=
  Unstored p h w ∧ Opened p h w ∧ LockIs p h none w ∧ Unused p h w

/-- It is open and locked. -/
def Entered (p : ι) (h : Handle ι Path) (w : World ι) : Prop :=
  Unstored p h w ∧ Opened p h w ∧ LockIs p h (some .exclusive) w

instance stable_unstored (h : Handle ι Path) :
    ((sectionsContract cfg f base).ctx p c).Stable (Unstored p h) :=
  stable_of fun _ _ _ hu _ hs => ⟨hu.fh.trans hs.1, hs.2.1.keep hu, hu.serial ▸ hs.2.2⟩

instance stable_started (h : Handle ι Path) :
    ((sectionsContract cfg f base).ctx p c).Stable (Started p h) :=
  inferInstanceAs (Context.Stable _ fun _ => _ ∧ _ ∧ _ ∧ _)

instance stable_entered (h : Handle ι Path) :
    ((sectionsContract cfg f base).ctx p c).Stable (Entered p h) :=
  inferInstanceAs (Context.Stable _ fun _ => _ ∧ _ ∧ _)

theorem idle_of_none (hfh : w.fh p = none) : (sectionsContract cfg f base).idle p w := by
  intro h hh
  rw [hfh] at hh
  cases hh

theorem fh_sections :
    (sectionsContract cfg f base).Triple p c ((sectionsContract cfg f base).idle p)
      (perform .fh) (fun v w => w.fh p = v ∧ (sectionsContract cfg f base).idle p w)
      (fun _ => (sectionsContract cfg f base).idle p) :=
  fh_rule (fun _ => trivial) fun _ _ hidle _ => hidle

/-- A call that fails has locked nothing. -/
theorem flock_sections (h : Handle ι Path) :
    (sectionsContract cfg f base).Triple p c (Started p h) (perform (.flock h .lockMethod))
      (fun _ => Entered p h) (fun _ => Started p h) := by
  refine perform_rule (fun w _ _ hs => ⟨hs.2.1.1, rfl, hs.2.2.1.2.2, hs.2.2.2.2⟩) ?_
    fun _ _ _ _ hs _ => hs
  rintro w choice r w' _ _ _ _ ⟨hunstored, ⟨ho, hd, hopen⟩, hlock, hunused⟩ hact
  simp only [Config.act, Config.onOpen, if_pos hopen, LockFlags.mode, LockFlags.lockMethod,
    if_true] at hact
  split at hact
  · simp only [Option.some.injEq, Prod.mk.injEq] at hact
    obtain ⟨rfl, rfl⟩ := hact
    exact (⟨hunstored, ⟨ho, hd, hopen⟩, hlock, hunused⟩ : Started p h w)
  · simp only [Option.some.injEq, Prod.mk.injEq] at hact
    obtain ⟨rfl, rfl⟩ := hact
    exact ⟨hunstored, ⟨ho, hd, hopen⟩, ho, hd, by simp⟩

/-- Storing an empty buffer leaves a handle as it is. -/
theorem Unstored.store (hs : Unstored p h w) (content : List UInt8) :
    Unstored p h (w.store h content []) := by
  obtain ⟨hfh, ⟨ho, hd, -⟩, hserial⟩ := hs
  exact ⟨hfh, ⟨ho, hd, by simp⟩, hserial⟩

/-- A close that raises has closed the handle. -/
theorem close_sections (h : Handle ι Path) :
    (sectionsContract cfg f base).Triple p c (Started p h) (perform (.close h))
      (fun _ => Unstored p h) (fun _ => Unstored p h) := by
  refine perform_rule (fun w _ hi hs => ⟨hs.2.1.1, hs.1.2.1.2.2⟩) ?_ ?_
  · rintro w choice r w' _ _ _ _ hs hact
    simp only [Config.act, if_pos hs.2.1.2.2, Option.some.injEq, Prod.mk.injEq] at hact
    obtain ⟨rfl, rfl⟩ := hact
    exact hs.1.store (w.data h.ino ++ w.buffer h)
  · intro w e _ _ hs _
    simp only [Config.afterFault, if_pos hs.2.1.2.2]
    exact hs.1.store (w.data h.ino)

theorem prepareFh_sections (self : Lock) (h : Handle ι Path) :
    (sectionsContract cfg f base).Triple p c (Entered p h) (self.prepareFh h)
      (fun _ => Entered p h) (fun _ => Unstored p h) := by
  unfold Lock.prepareFh
  split
  · refine Hoare.bind (R := fun _ => Entered p h) ?_ fun _ => ?_
    · refine perform_rule (fun w _ _ hs => ⟨hs.2.1.1, trivial⟩) ?_ fun _ _ _ _ hs _ => hs.1
      rintro w choice r w' _ _ _ _ ⟨hunstored, hopened, hlock⟩ hact
      simp only [Config.act, Config.onOpen, if_pos hopened.2.2, Option.some.injEq,
        Prod.mk.injEq] at hact
      obtain ⟨rfl, rfl⟩ := hact
      exact ⟨hunstored.store _, hopened, hlock⟩
    · refine perform_rule (fun w _ _ hs => ⟨hs.2.1.1, fun _ => ⟨?_, hs.2.1.2.1⟩⟩) ?_
        fun _ _ _ _ hs _ => hs.1
      · simp [hs.2.2.2.2]
      · rintro w choice r w' _ _ _ _ ⟨hunstored, hopened, hlock⟩ hact
        simp only [Config.act, Config.onOpen, if_pos hopened.2.2, Option.some.injEq,
          Prod.mk.injEq] at hact
        obtain ⟨rfl, rfl⟩ := hact
        exact ⟨hunstored.store _, hopened, hlock⟩
  · exact Hoare.pure fun w _ hs => hs

theorem setFh_sections (h : Handle ι Path) :
    (sectionsContract cfg f base).Triple p c (Entered p h) (perform (.setFh (some h)))
      (fun _ => (sectionsContract cfg f base).idle p) (fun _ => Unstored p h) := by
  refine perform_rule ?_ ?_ fun _ _ _ _ hs _ => hs.1
  · rintro w _ _ ⟨-, ⟨ho, hd, hopen⟩, -⟩
    exact ⟨fun k hk => Option.some.inj hk ▸ ⟨ho, hopen, hd⟩, trivial⟩
  · rintro w choice r w' _ _ _ _ ⟨-, -, hlock⟩ hact
    simp only [Config.act, Option.some.injEq, Prod.mk.injEq] at hact
    obtain ⟨rfl, rfl⟩ := hact
    intro k hk _
    simp only [setFh_fh, Function.update_self, Option.some.injEq] at hk
    simp [← hk, hlock.2.2]

/-- Whether it is dropped or not, the client has forgotten the handle. -/
theorem drop_sections (h : Handle ι Path) :
    (sectionsContract cfg f base).Triple p c (Unstored p h) (perform (.drop h))
      (fun _ => (sectionsContract cfg f base).idle p)
      (fun _ => (sectionsContract cfg f base).idle p) := by
  refine perform_rule ?_ ?_ fun w e _ _ hs _ => idle_of_none hs.1
  · rintro w _ _ ⟨hfh, ⟨ho, -, hbuffer⟩, hserial⟩
    exact ⟨⟨ho, hserial, by simp [hfh]⟩, hbuffer⟩
  · rintro w choice r w' _ _ _ _ hs hact
    simp only [Config.act, Option.some.injEq, Prod.mk.injEq] at hact
    obtain ⟨rfl, rfl⟩ := hact
    exact idle_of_none (w := w.drop h) hs.1

theorem acquireOpened_sections {self : Lock} (hflags : self.flags = .lockMethod)
    (timeout checkInterval : Rat) (b : Bool) (h : Handle ι Path) :
    (sectionsContract cfg f base).Triple p c (Started p h)
      (self.acquireOpened timeout checkInterval b h)
      (fun _ => (sectionsContract cfg f base).idle p)
      (fun _ => (sectionsContract cfg f base).idle p) := by
  have hcaught : ∀ (e : Exc) (w : World ι), Unstored p h w →
      Caught (Unstored p h) (fun _ => Unstored p h) e w := by
    intro e w hs
    unfold Caught
    split
    · exact hs
    · exact hs
  refine acquireOpened_rule (N := Started p h) (L := Entered p h) (T := fun _ => Started p h)
    (G := fun _ => Unstored p h) (D := fun _ => Unstored p h) ?_ ?_ ?_ ?_ ?_ ?_ ?_
    (prepareFh_sections self h) (setFh_sections h) (fun _ => drop_sections h)
  · rw [hflags]
    exact posixLock_rule (flock_sections h) fun _ _ _ hs => hs
  · exact fun _ => (close_sections h).conseq (fun _ _ hs => hs) (fun _ _ _ hs => hs)
      fun e w _ hs => hcaught e w hs
  · exact fun _ _ _ _ _ hs => hs
  · exact fun _ _ _ _ hs => hs.1
  · exact fun _ _ _ _ hs => hs
  · exact fun _ _ => pause_rule (Or.inl ⟨_, rfl⟩) (fun _ => trivial) fun _ _ hs _ => hs.1
  · exact fun _ _ _ => pause_rule (Or.inr ⟨_, _, rfl⟩) (fun _ => trivial) fun _ _ hs _ => hs.1

theorem openFile_sections {path : Path} (hname : path = f) :
    (sectionsContract cfg f base).Triple p c
      (fun w => w.fh p = none ∧ (sectionsContract cfg f base).idle p w)
      (perform (.openFile path .append)) (fun h => Started p h)
      (fun _ => (sectionsContract cfg f base).idle p) := by
  refine perform_rule (fun w _ _ _ => ⟨by simp [Own], hname, rfl⟩) ?_ fun _ _ _ _ hs _ => hs.2
  intro w choice r w' hw hi hw' hi' hs hact
  -- a new handle is unlocked, not dropped, and of no section
  have hstarted : ∀ i (w₁ : World ι), w₁.Wf → SectionsInv f base w₁ → w₁.fh = w.fh →
      Started p (w₁.handle p path i) (w₁.openAt p path i) := by
    intro i w₁ hw₁ hi₁ hfh
    have hundropped : w₁.dropped (w₁.handle p path i) = false :=
      Bool.eq_false_iff.2 fun hd => absurd (hw₁.dropped_serial hd) (by simp)
    have hclosed : w₁.handle p path i ∉ w₁.opened := hw₁.fs.handle_not_mem
    refine ⟨⟨?_, ⟨rfl, hundropped, ?_⟩, by simp⟩, ⟨rfl, hundropped, by simp⟩,
      ⟨rfl, hundropped, ?_⟩, rfl, ?_⟩
    · simpa [hfh] using hs.1
    · exact hw₁.fs.buffer_open hclosed
    · exact hw₁.fs.lock_open hclosed
    · intro t ht heq
      have := hi₁.serial ht
      rw [heq] at this
      simp at this
  simp only [Config.act] at hact
  split at hact
  · simp only [Option.some.injEq, Prod.mk.injEq] at hact
    obtain ⟨rfl, rfl⟩ := hact
    exact hstarted _ w hw hi rfl
  · simp only [Option.ite_none_right_eq_some, Option.some.injEq, Prod.mk.injEq] at hact
    obtain ⟨hfresh, rfl, rfl⟩ := hact
    subst hname
    exact hstarted _ _ ⟨hw.fs.create ‹_› hfresh, hw.fh_owner, hw.fh_serial,
      hw.fh_dropped, hw.dropped_serial⟩ (hi.creates ‹_›) rfl

theorem acquire_sections {self : Lock} (hname : self.filename = f)
    (hflags : self.flags = .lockMethod) (hmode : openKind self.mode = some .append)
    (timeout checkInterval : Option Rat) (b : Option Bool) :
    (sectionsContract cfg f base).Triple p c ((sectionsContract cfg f base).idle p)
      (self.acquire timeout checkInterval b) (fun _ => (sectionsContract cfg f base).idle p)
      (fun _ => (sectionsContract cfg f base).idle p) := by
  refine Hoare.bind fh_sections ?_
  intro v
  cases v with
  | some h => exact Hoare.pure fun w _ hs => hs.2
  | none =>
      refine Hoare.bind (R := fun h => Started p h) ?_ fun h =>
        acquireOpened_sections hflags _ _ _ h
      simp only [Lock.getFh, hmode]
      exact openFile_sections hname

/-- The handle the client is about to release has been flushed. -/
def Flushed (p : ι) (w : World ι) : Prop := ∀ h, w.fh p = some h → w.buffer h = []

/-- The client's flushed handle, stored. -/
def ToRelease (p : ι) (h : Handle ι Path) (w : World ι) : Prop :=
  w.fh p = some h ∧ BufferIs p h [] w

/-- The client's closed handle, stored. -/
def ToForget (p : ι) (h : Handle ι Path) (w : World ι) : Prop := w.fh p = some h ∧ Closed p h w

instance stable_flushed : ((sectionsContract cfg f base).ctx p c).Stable (Flushed p) := by
  refine stable_of ?_
  intro w w' hw _ _ hu _ hflushed h hh
  rw [hu.fh] at hh
  rw [(hu.handle h (hw.fh_owner hh) (hw.fh_dropped hh)).file.buffer]
  exact hflushed h hh

instance stable_toRelease (h : Handle ι Path) :
    ((sectionsContract cfg f base).ctx p c).Stable (ToRelease p h) :=
  inferInstanceAs (Context.Stable _ fun _ => _ ∧ _)

instance stable_toForget (h : Handle ι Path) :
    ((sectionsContract cfg f base).ctx p c).Stable (ToForget p h) :=
  inferInstanceAs (Context.Stable _ fun _ => _ ∧ _)

/-- A closed handle may stay stored. -/
theorem ToForget.idle (hs : ToForget p h w) : (sectionsContract cfg f base).idle p w := by
  intro k hk hopen
  obtain rfl := Option.some.inj (hk.symm.trans hs.1)
  exact absurd hopen hs.2.2.2.2

theorem unlock_sections (h : Handle ι Path) :
    (sectionsContract cfg f base).Triple p c (ToRelease p h) (perform (.unlock h))
      (fun _ => ToRelease p h) (fun _ => ToRelease p h) := by
  refine perform_rule (fun w _ _ hs => ⟨hs.2.1, hs.2.2.2⟩) ?_ fun _ _ _ _ hs _ => hs
  rintro w choice r w' _ _ _ _ hs hact
  simp only [Config.act] at hact
  rcases Config.onOpen_cases hact with ⟨-, hact⟩ | ⟨rfl, rfl⟩
  · simp only [Option.some.injEq, Prod.mk.injEq] at hact
    obtain ⟨rfl, rfl⟩ := hact
    exact hs
  · exact hs

theorem closeReleased_sections (h : Handle ι Path) :
    (sectionsContract cfg f base).Triple p c (ToRelease p h) (perform (.close h))
      (fun _ => ToForget p h) (fun _ => ToForget p h) := by
  have hgone : ∀ (w : World ι) content, w.Wf → ToRelease p h w →
      ToForget p h (if h ∈ w.opened then (w.store h content []).discard h else w) := by
    rintro w content hw ⟨hfh, ho, hd, -⟩
    have hserial := hw.fh_serial hfh
    split
    · exact ⟨hfh, ho, hd, hserial, by simp⟩
    · exact ⟨hfh, ho, hd, hserial, ‹_›⟩
  refine perform_rule (fun w _ _ hs => ⟨hs.2.1, hs.2.2.2⟩) ?_
    fun w e hw _ hs _ => hgone w _ hw hs
  rintro w choice r w' hw _ _ _ hs hact
  have hclosed := hgone w (w.data h.ino ++ w.buffer h) hw hs
  simp only [Config.act] at hact
  split at hact <;>
    (rename_i hopen
     simp only [Option.some.injEq, Prod.mk.injEq] at hact
     obtain ⟨rfl, rfl⟩ := hact
     simp only [hopen, if_true, if_false] at hclosed
     exact hclosed)

theorem release_sections (self : Lock) :
    (sectionsContract cfg f base).Triple p c
      (fun w => Flushed p w ∧ (sectionsContract cfg f base).idle p w) self.release
      (fun _ => (sectionsContract cfg f base).idle p)
      (fun _ => (sectionsContract cfg f base).idle p) := by
  refine release_rule (I := fun _ => True) (R := ToRelease p) (U := ToRelease p)
    (V := ToForget p) ?_ ?_ ?_ ?_ (fun _ _ => trivial) fun _ _ _ _ hz => hz
  · refine perform_rule (fun w _ _ _ => ⟨trivial, trivial⟩) ?_ fun _ _ _ _ hs _ => hs.2
    intro w choice r w' hw _ _ _ hs hact
    simp only [Config.act, Option.some.injEq, Prod.mk.injEq] at hact
    obtain ⟨rfl, rfl⟩ := hact
    cases hfh : w.fh p with
    | none => simpa [Ends, hfh] using hs.2
    | some h =>
        have hready : ToRelease p h w :=
          ⟨hfh, hw.fh_owner hfh, hw.fh_dropped hfh, hs.1 h hfh⟩
        exact hready
  · intro h
    refine (unlock_sections h).conseq (fun _ _ hs => hs) (fun _ _ _ hs => hs) fun e w _ hs => ?_
    unfold Caught
    split
    · exact hs
    · exact ⟨trivial, hs⟩
  · intro h
    refine (closeReleased_sections h).conseq (fun _ _ hs => hs) (fun _ _ _ hs => hs)
      fun e w _ hs => ?_
    unfold Caught
    split
    · exact hs
    · exact hs.idle
  · intro h
    refine perform_rule (fun w _ _ _ => ⟨fun k hk => (by cases hk), trivial⟩) ?_
      fun _ _ _ _ hs _ => hs.idle
    rintro w choice r w' _ _ _ _ _ hact
    simp only [Config.act, Option.some.injEq, Prod.mk.injEq] at hact
    obtain ⟨rfl, rfl⟩ := hact
    exact idle_of_none (w := w.setFh p none) (by simp)

/-- Writing or flushing through the handle of a section. -/
theorem through_sections (h : Handle ι Path) (o : Op ι)
    (hact : ∀ choice r (w w' : World ι), cfg.act choice p w o = some (r, w') →
      w'.fh = w.fh ∧ w'.lock = w.lock ∧ w'.opened = w.opened)
    (hafter : ∀ w : World ι, Config.afterFault w o = w)
    (hpre : ∀ w : World ι, h.owner = p →
      (h ∈ w.opened → w.lock h ≠ none ∧ w.dropped h = false) → Own p w o ∧ sectionsPre f w o) :
    (sectionsContract cfg f base).Triple p c
      (fun w => w.fh p = some h ∧ (sectionsContract cfg f base).idle p w) (perform o)
      (fun _ => (sectionsContract cfg f base).idle p)
      (fun _ => (sectionsContract cfg f base).idle p) := by
  refine perform_rule ?_ ?_ fun w e _ _ hs _ => (hafter w).symm ▸ hs.2
  · exact fun w hw _ hs => hpre w (hw.fh_owner hs.1) fun hopen =>
      ⟨hs.2 h hs.1 hopen, hw.fh_dropped hs.1⟩
  · rintro w choice r w' _ _ _ _ ⟨_, hidle⟩ h'
    obtain ⟨hfh', hlock', hopened'⟩ := hact choice r w w' h'
    have : (sectionsContract cfg f base).idle p w' := by
      intro k hk hopen
      rw [hfh'] at hk
      rw [hopened'] at hopen
      rw [hlock']
      exact hidle k hk hopen
    cases r <;> exact this

theorem write_sections (self : Lock) (bytes : List UInt8) :
    (sectionsContract cfg f base).Triple p c ((sectionsContract cfg f base).idle p)
      (self.write bytes) (fun _ => (sectionsContract cfg f base).idle p)
      (fun _ => (sectionsContract cfg f base).idle p) := by
  refine Hoare.bind fh_sections ?_
  intro v
  cases v with
  | none => exact Hoare.pure fun w _ hs => hs.2
  | some h =>
      refine through_sections h _ ?_ (fun _ => rfl) fun w ho hl => ⟨ho, hl⟩
      intro choice r w w' hact
      simp only [Config.act] at hact
      rcases Config.onOpen_cases hact with ⟨-, hact⟩ | ⟨-, rfl⟩
      · simp only [Option.ite_none_right_eq_some, Option.some.injEq, Prod.mk.injEq] at hact
        obtain ⟨-, -, rfl⟩ := hact
        exact ⟨rfl, rfl, rfl⟩
      · exact ⟨rfl, rfl, rfl⟩

theorem flush_sections :
    (sectionsContract cfg f base).Triple p c ((sectionsContract cfg f base).idle p)
      Lock.flush (fun _ => (sectionsContract cfg f base).idle p)
      (fun _ => (sectionsContract cfg f base).idle p) := by
  refine Hoare.bind fh_sections ?_
  intro v
  cases v with
  | none => exact Hoare.pure fun w _ hs => hs.2
  | some h =>
      refine through_sections h _ ?_ (fun _ => rfl) fun w ho _ => ⟨ho, trivial⟩
      intro choice r w w' hact
      simp only [Config.act] at hact
      rcases Config.onOpen_cases hact with ⟨-, hact⟩ | ⟨-, rfl⟩
      · simp only [Option.some.injEq, Prod.mk.injEq] at hact
        obtain ⟨-, rfl⟩ := hact
        exact ⟨rfl, rfl, rfl⟩
      · exact ⟨rfl, rfl, rfl⟩

variable (hcfg : OneFile cfg f)
include hcfg

/-- Every call of an instance keeps the contract. -/
theorem sections_verified : (sectionsContract cfg f base).toDiscipline.Verified := by
  intro p (c : Call) w hw hidle hg
  obtain ⟨self, hobject, hname, hflags, hmode⟩ := hcfg p
  have hstable : ((sectionsContract cfg f base).ctx p c).Stable
      ((sectionsContract cfg f base).idle p) := inferInstance
  have hdone : ((sectionsContract cfg f base).ctx p c).Safe (.ret ())
      (fun _ => (sectionsContract cfg f base).idle p) w :=
    fun w' hw' hr => hstable.keep hw hw' hr hidle
  simp only [machine, hobject]
  cases c with
  | acquire timeout checkInterval failWhenLocked =>
      exact Hoare.toCall hstable (acquire_sections hname hflags hmode _ _ _) hw hidle
  | enter => exact Hoare.toCall hstable (acquire_sections hname hflags hmode _ _ _) hw hidle
  | release => exact Hoare.toCall hstable (release_sections self) hw ⟨hg (Or.inl rfl), hidle⟩
  | exit => exact Hoare.toCall hstable (release_sections self) hw ⟨hg (Or.inr rfl), hidle⟩
  | write bytes => exact Hoare.toCall hstable (write_sections self bytes) hw hidle
  | flush => exact Hoare.toCall hstable flush_sections hw hidle
  | readPid => exact hdone

/-- The invariant and all permissions hold in every run whose releases find
flushed handles. -/
theorem sections_hold {s : (machine cfg).State}
    (hs : Reach (Untaken f base) (flushed cfg) s) :
    (sectionsContract cfg f base).toDiscipline.Holds s := by
  refine (sections_verified hcfg).sound ?_ hs
  intro w h0
  refine ⟨⟨h0.wf, ?_⟩, fun p h hh => by simp [h0.fh] at hh⟩
  have hclosed : ∀ h, h ∉ w.opened := by simp [h0.opened]
  have hfree : ∀ h, w.lock h = none := fun h => h0.wf.fs.lock_open (hclosed h)
  have hempty : ∀ h, w.buffer h = [] := fun h => h0.wf.fs.buffer_open (hclosed h)
  refine ⟨fun hk => absurd hk (hclosed _), fun _ => hempty _, fun hk => absurd (hfree _) hk,
    ?_, ?_, fun _ => hempty _, fun _ => h0.sections, ?_⟩
  · simp [h0.sections]
  · simp [h0.sections]
  · simp [World.pending, h0.sections, replay, h0.content]

end Triples

/-! ## Serialized sections -/

/-- A permitted operation changes the file only through the handle of the latest
section, while that is locked. -/
theorem SectionsInv.writer {cfg : Config ι} {p : ι} {o : Op ι} {w' : World ι}
    (hi : SectionsInv f base w) (hown : Own p w o) (hpre : sectionsPre f w o)
    (hc : Change cfg p w o w') (hne : w'.content f ≠ w.content f) :
    ∃ s earlier, w.sections = s :: earlier ∧ s.handle.owner = p ∧ w.lock s.handle ≠ none := by
  have hlatest : ∀ h : Handle ι Path, h.owner = p → w.lock h ≠ none →
      ∃ s earlier, w.sections = s :: earlier ∧ s.handle.owner = p ∧ w.lock s.handle ≠ none := by
    intro h ho hl
    obtain ⟨s, earlier, hsec, rfl⟩ := hi.latest hl
    exact ⟨s, earlier, hsec, ho, hl⟩
  have hsame : ∀ {w₁ : World ι}, w₁.toFs = w.toFs → w₁.content f = w.content f :=
    fun hfs => by simp [World.content, hfs]
  cases hc with
  | openEmptied path i hn => exact absurd hpre.2 (by decide)
  | create path kind i hn hfresh hkind =>
      obtain rfl : path = f := hpre.1
      exact absurd (by simp [World.content, hn]) hne
  | unlink path i hn => exact hpre.elim
  | close g ho content hcontent =>
      have hstored : (w.store g content []).content f = w.content f :=
        hsame (store_same hpre hcontent)
      exact absurd hstored hne
  | seek g ho | flush g ho =>
      by_cases hl : w.lock g = none
      · exact absurd (hsame (store_same (hi.buffered hl) (Or.inl rfl))) hne
      · exact hlatest g hown hl
  | truncate g ho | write g bytes bufferSize n ho hn => exact hlatest g hown (hpre ho).1
  | _ => exact absurd rfl hne

/-- A permitted operation drops the lock of a handle with nothing in its buffer only. -/
theorem flushed_of_unlocked {cfg : Config ι} {p : ι} {o : Op ι} {w' : World ι}
    (hpre : sectionsPre f w o) (hc : Change cfg p w o w') (hl : w.lock h ≠ none)
    (hl' : w'.lock h = none) : w.buffer h = [] := by
  have hdrops : ∀ g, w.buffer g = [] → Function.update w.lock g none h = none →
      w.buffer h = [] := by
    intro g hb hnone
    by_cases hne : h = g
    · exact hne ▸ hb
    · exact absurd (by simpa [Function.update_of_ne hne] using hnone) hl
  cases hc with
  | unlock g ho => exact hdrops g hpre hl'
  | close g ho content hcontent => exact hdrops g hpre hl'
  | lock g flags mode hm ho hconf =>
      by_cases hne : h = g
      · simp [hne] at hl'
      · exact absurd (by simpa [Function.update_of_ne hne] using hl') hl
  | _ => exact absurd hl' hl

/-- Sections that are flushed before they are released are serialized, whatever fails and
whoever is interrupted: whenever a lock is dropped the file holds all that has been
written, a byte reaches the file only through the handle of the latest section while
that is locked, and between sections the file is what they give one after another in
the order of their locks. -/
theorem flushed_sections_serialize {cfg : Config ι} (hcfg : OneFile cfg f)
    {s : (machine cfg).State} (hs : Reach (Untaken f base) (flushed cfg) s) :
    (∀ l s' h, (flushed cfg).Allows s l → next s l = some s' →
      (files s).lock h ≠ none → (files s').lock h = none →
      (files s).buffer h = [] ∧ (files s).content f = replay base (files s).sections) ∧
    (∀ l s', (flushed cfg).Allows s l → next s l = some s' →
      (files s').content f ≠ (files s).content f →
      ∃ latest earlier, (files s).sections = latest :: earlier ∧
        (files s).lock latest.handle ≠ none ∧ ∃ choice, l = .op latest.handle.owner choice) ∧
    ((∀ h, (files s).lock h = none) → (files s).content f = replay base (files s).sections) := by
  have hhold := sections_hold hcfg hs
  have hinv : SectionsInv f base (files s) := hhold.1.2
  have hreplayed := hinv.replayed
  refine ⟨?_, ?_, ?_⟩
  · intro l s' h hallow hnext hl hl'
    have hempty : (files s).buffer h = [] := by
      cases l with
      | call p c =>
          obtain ⟨-, rfl⟩ := next_call hnext
          exact absurd hl' hl
      | event e =>
          obtain ⟨he, -⟩ := next_event hnext
          obtain ⟨-, hd, heq⟩ := Config.finalize_cases he
          have hclosed : files s' = (store (files s) e.handle _ []).discard e.handle := heq
          rw [hclosed] at hl'
          by_cases hne : h = e.handle
          · exact hne ▸ hinv.dropped hd
          · exact absurd (by simpa [Function.update_of_ne hne] using hl') hl
      | op p choice =>
          obtain ⟨c, o, k, r, hthread, hperform, -⟩ := next_op hnext
          exact flushed_of_unlocked (hhold.permitted hthread).2
            (Config.performOp_change hperform) hl hl'
    obtain ⟨latest, earlier, hsec, rfl⟩ := hinv.latest hl
    rw [pending_of_sections hsec, hempty, List.append_nil] at hreplayed
    exact ⟨hempty, hreplayed⟩
  · intro l s' hallow hnext hne
    cases l with
    | call p c =>
        obtain ⟨-, rfl⟩ := next_call hnext
        exact absurd rfl hne
    | event e =>
        obtain ⟨he, -⟩ := next_event hnext
        obtain ⟨-, hd, heq⟩ := Config.finalize_cases he
        have hclosed : files s' = (store (files s) e.handle _ []).discard e.handle := heq
        have hsame : (files s').content f = (files s).content f := by
          have hstored := store_same (hinv.dropped hd) (Or.inl rfl)
          rw [hclosed]
          simp only [World.content, discard_toFs, hstored, Fs.discard_names, Fs.discard_data]
        exact absurd hsame hne
    | op p choice =>
        obtain ⟨c, o, k, r, hthread, hperform, -⟩ := next_op hnext
        obtain ⟨hown, hpre⟩ := hhold.permitted hthread
        obtain ⟨latest, earlier, hsec, rfl, hl⟩ :=
          hinv.writer hown hpre (Config.performOp_change hperform) hne
        exact ⟨latest, earlier, hsec, hl, choice, rfl⟩
  · intro hfree
    rwa [hinv.pending_free hfree, List.append_nil] at hreplayed

/-! ## Two writers of one file -/

/-- Two instances with the default arguments on one file. -/
def twoWriters : Config Bool where
  object _ := .lock { filename := ['f'] }
  mayRaise _ _ _ := false

/-- The same, when anything may fail. -/
def failingWriters : Config Bool := { twoWriters with mayRaise := fun _ _ _ => true }

theorem failingWriters_oneFile : OneFile failingWriters ['f'] :=
  fun _ => ⟨_, rfl, rfl, rfl, rfl⟩

namespace Config

variable (cfg : Config Bool)

/-- All is idle and the file does not exist. -/
def vacant : (machine cfg).State := ⟨World.empty, fun _ => none⟩

/-- Client `p` makes a call and performs the first `n` operations of it. -/
def makes (p : Bool) (c : Call) (n : Nat) : List (machine cfg).Label :=
  .call p c :: List.replicate n (.op p {})

/-- A section that writes one byte, up to the release. -/
def writes (p : Bool) (byte : UInt8) : List (machine cfg).Label :=
  cfg.makes p (.acquire none none none) 4 ++ cfg.makes p (.write [byte]) 2

end Config

theorem untaken_empty : Untaken ['f'] [] (World.empty : World Bool) :=
  ⟨World.empty_wf, rfl, fun _ => rfl, rfl, rfl⟩

/-- The call does not release. -/
def Call.stays : Call → Bool
  | .release | .exit => false
  | _ => true

/-- No transition of the list starts a release. -/
def staysIn {cfg : Config ι} (ls : List (machine cfg).Label) : Bool :=
  ls.all fun l => match l with
    | .call _ c => Call.stays c
    | _ => true

theorem allows_of_staysIn {cfg : Config ι} {ls : List (machine cfg).Label}
    (h : staysIn ls = true) : ∀ l ∈ ls, ∀ t : (machine cfg).State, (flushed cfg).Allows t l := by
  intro l hl t
  have hstays := List.all_eq_true.1 h l hl
  cases l with
  | op p choice => exact fun _ _ _ _ => trivial
  | event e => trivial
  | call p c =>
      have hc : Call.stays c = true := hstays
      rintro (rfl | rfl)
      · cases hc
      · cases hc

/-- A release of a flushed handle, and what follows up to the next release. -/
theorem reach_release {cfg : Config ι} {s s' : (machine cfg).State} {p : ι}
    {ls : List (machine cfg).Label} (hs : Reach (Untaken f base) (flushed cfg) s)
    (hflushed : ((files s).fh p).map (files s).buffer = some []) (hls : staysIn ls = true)
    (hr : run (.call p Call.release :: ls) s = some s') :
    Reach (Untaken f base) (flushed cfg) s' := by
  refine hs.cons ?_ hr (allows_of_staysIn hls)
  intro _ h hh
  have hfh : (files s).fh p = some h := hh
  rw [hfh] at hflushed
  exact Option.some.inj hflushed

namespace failingWriters

/-- A section that flushes its byte, up to the release. -/
def flushes (p : Bool) (byte : UInt8) : List (machine failingWriters).Label :=
  failingWriters.writes p byte ++ failingWriters.makes p .flush 2

/-- A release whose unlock fails, up to the close. -/
def refused : List (machine failingWriters).Label :=
  [.op true {}, .op true { fault := some (.osError (.other 5)) }]

/-- The close. -/
def closes : (machine failingWriters).Label := .op true {}

/-- The handle of the first section. -/
def handle : Handle Bool Path := ⟨true, 0, ['f'], 0⟩

end failingWriters

/-- Two sections that flush before they release.  In the first release the unlock fails,
so it is the close that drops the lock. -/
theorem flushed_sections_serialize_run :
    ∃ s₀ s s' t₀ t, run (failingWriters.flushes true 65) failingWriters.vacant = some s₀ ∧
      run (.call true Call.release :: failingWriters.refused) s₀ = some s ∧
      next s failingWriters.closes = some s' ∧
      run (failingWriters.closes :: failingWriters.flushes false 66) s' = some t₀ ∧
      run (failingWriters.makes false .release 4) t₀ = some t ∧
      ((files s).lock failingWriters.handle ≠ none ∧
        (files s').lock failingWriters.handle = none ∧
        (files s).content ['f'] = replay [] (files s).sections) ∧
      (∀ h, (files t).lock h = none) ∧ (files t).content ['f'] = [65, 66] ∧
      (files t).content ['f'] = replay [] (files t).sections := by
  have hobserve : (run (failingWriters.flushes true 65) failingWriters.vacant).bind (fun s₀ =>
      (run (.call true Call.release :: failingWriters.refused) s₀).bind fun s =>
      (next s failingWriters.closes).bind fun s' =>
      (run (failingWriters.closes :: failingWriters.flushes false 66) s').bind fun t₀ =>
      (run (failingWriters.makes false .release 4) t₀).map fun t =>
        (((files s₀).fh true).map (files s₀).buffer, (files s).lock failingWriters.handle,
          (files s').lock failingWriters.handle, ((files t₀).fh false).map (files t₀).buffer,
          (files t).opened, (files t).content ['f'])) =
      some (some [], some .exclusive, none, some [], [], [65, 66]) := by rfl
  obtain ⟨s₀, hrun₀, hrest⟩ := Option.bind_eq_some_iff.1 hobserve
  obtain ⟨s, hrun, hrest⟩ := Option.bind_eq_some_iff.1 hrest
  obtain ⟨s', hnext, hrest⟩ := Option.bind_eq_some_iff.1 hrest
  obtain ⟨t₀, hrun₁, hrest⟩ := Option.bind_eq_some_iff.1 hrest
  obtain ⟨t, hrun₂, hs⟩ := Option.map_eq_some_iff.1 hrest
  simp only [Prod.mk.injEq] at hs
  obtain ⟨hflushed, hlocked, hdropped, hflushed', hclosed, hcontent⟩ := hs
  have hstart : Reach (Untaken ['f'] []) (flushed failingWriters) failingWriters.vacant :=
    Reach.start untaken_empty
  have hreach₀ := hstart.append hrun₀ (allows_of_staysIn (by rfl))
  have hreach := reach_release hreach₀ hflushed (by rfl) hrun
  have hallows : (flushed failingWriters).Allows s failingWriters.closes :=
    fun _ _ _ _ => trivial
  have hreach' := (Reach.step _ hreach hallows hnext).append hrun₁ (allows_of_staysIn (by rfl))
  have hreach'' := reach_release hreach' hflushed' (by rfl) hrun₂
  have hheld : (files s).lock failingWriters.handle ≠ none := by simp [hlocked]
  have hfree : ∀ h, (files t).lock h = none := fun h =>
    (sections_hold failingWriters_oneFile hreach'').1.1.fs.lock_open (by simp [hclosed])
  obtain ⟨hdrops, -, -⟩ := flushed_sections_serialize failingWriters_oneFile hreach
  obtain ⟨-, -, hserial⟩ := flushed_sections_serialize failingWriters_oneFile hreach''
  exact ⟨s₀, s, s', t₀, t, hrun₀, hrun, hnext, hrun₁, hrun₂,
    ⟨hheld, hdropped, (hdrops _ _ _ hallows hnext hheld hdropped).2⟩, hfree, hcontent,
    hserial hfree⟩

/-- Both write one byte and leave the flush to `release`; the second gets its lock
between the unlock and the close of the first, and its byte comes first. -/
def twoWriters.overtake : List (machine twoWriters).Label :=
  twoWriters.writes true 65 ++ twoWriters.makes true .release 2 ++
    twoWriters.writes false 66 ++ twoWriters.makes false .release 4 ++
    List.replicate 2 (.op true {})

/-- Without the flush the file can end up with the bytes of the later section
first. -/
theorem unflushed_release_reorders :
    ¬ ∀ s, Reach (Untaken ['f'] []) (Guard.free (machine twoWriters)) s →
      (∀ p, s.thread p = none ∧ (files s).fh p = none) →
      (files s).content ['f'] = replay [] (files s).sections := by
  intro hclaim
  have hobserve : (run twoWriters.overtake twoWriters.vacant).map (fun s =>
      (((s.thread true).isNone, (files s).fh true), ((s.thread false).isNone, (files s).fh false),
        (files s).content ['f'], replay [] (files s).sections)) =
      some ((true, none), (true, none), [66, 65], [65, 66]) := by rfl
  obtain ⟨s, hrun, hs⟩ := Option.map_eq_some_iff.1 hobserve
  simp only [Prod.mk.injEq, Option.isNone_iff_eq_none] at hs
  obtain ⟨htrue, hfalse, hcontent, hreplay⟩ := hs
  have hreach := (Reach.start (g := Guard.free (machine twoWriters)) untaken_empty).run hrun
  have hidle : ∀ p, s.thread p = none ∧ (files s).fh p = none := by
    intro p
    cases p with
    | true => exact htrue
    | false => exact hfalse
  rw [hclaim s hreach hidle, hreplay] at hcontent
  exact absurd hcontent (by decide)

end Portalocker
