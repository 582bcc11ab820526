import DemandPaging.Proofs.Coherence

/-!
Evictions. The victims are tried one after the other, the one that was used the longest time ago first,
until the contents of one can be saved. The attempts before it leave nothing behind but what their files
took.
-/

namespace DemandPaging

open DemandPaging.Core

/-! What it takes to save a victim, and what the attempt leaves behind. -/

namespace Machine

def writeBack (m : Machine) (backing : FileBacking) (phys : PhysPage) : Nat × File :=
  (m.file backing.file).writeAt (PageBytes.slice (m.memory.read phys) 0 backing.readBytes)
    backing.offset

/-- The contents of a victim can be saved as things stand: an anonymous page finds a slot that is not
in use, and a file page is clean or its file takes all that it shows of it. -/
def CanSave (m : Machine) (v : Victim) : Prop :=
  match v.page.kind with
  | .uninit _ _ => False
  | .anon _ => ∃ slot : SwapSlot, slot.index < m.swap.slots ∧ m.swap.holds slot = false
  | .file backing =>
      m.core.dirty v.ref = true → (m.writeBack backing v.phys).1 = backing.readBytes

/-- The files after an attempt to save a victim. Only the file of a dirty page is written to. -/
def filesAfter (m : Machine) (v : Victim) : Table FileId File :=
  match v.page.kind with
  | .file backing =>
      if m.core.dirty v.ref then m.files.insert backing.file (m.writeBack backing v.phys).2 else m.files
  | _ => m.files

def tried (m : Machine) (v : Victim) : Machine := { m with files := m.filesAfter v }

def filesAfterAll (m : Machine) : List Victim → Table FileId File
  | [] => m.files
  | v :: rest => (m.tried v).filesAfterAll rest

def triedAll (m : Machine) (vs : List Victim) : Machine := { m with files := m.filesAfterAll vs }

def RefusesAll (m : Machine) : List Victim → Prop
  | [] => True
  | v :: rest => ¬ m.CanSave v ∧ (m.tried v).RefusesAll rest

inductive Saved (m : Machine) (v : Victim) : PageKind → SwapArea → Table FileId File → Prop where
  | anon {slot : SwapSlot} {swap : SwapArea} (kind : v.page.kind = .anon none)
      (within : slot.index < m.swap.slots) (free : m.swap.holds slot = false)
      (holds : ∀ other, swap.holds other = (decide (other = slot) || m.swap.holds other))
      (stored : swap.pageIn slot = m.memory.read v.phys)
      (others : ∀ other, other ≠ slot → swap.pageIn other = m.swap.pageIn other) :
      m.Saved v (.anon (some slot)) swap m.files
  | clean {backing : FileBacking} (kind : v.page.kind = .file backing)
      (clean : m.core.dirty v.ref = false) : m.Saved v (.file backing) m.swap m.files
  | dirty {backing : FileBacking} (kind : v.page.kind = .file backing)
      (dirty : m.core.dirty v.ref = true)
      (written : ∀ i < backing.readBytes, (m.writeBack backing v.phys).2.data[backing.offset + i]? =
        some ((m.memory.read v.phys).byteAt i)) :
      m.Saved v (.file backing) m.swap
        (m.files.insert backing.file (m.writeBack backing v.phys).2)

/-- The frame of a victim is taken: the page is gone from memory and from its page table, and the frame
is clear. -/
def take (m : Machine) (v : Victim) (kind : PageKind) : Machine :=
  { m with
    memory := m.memory.write v.phys PageBytes.zero
    frames := m.frames.update v.id ⟨v.phys, []⟩
    pages := m.pages.insert v.ref { v.page with kind, frame := none, cow := false }
    mappings := m.mappings.erase v.ref }

/-- How the search for a page to evict ends: none of the victims can be saved, or the first that can is
gone from memory and from its page table and its frame is clear. Reports aside, all else is as it was. -/
inductive Evicts (m : Machine) (vs : List Victim) : Option FrameId → Machine → Prop where
  | none (console : List Event) (refused : m.RefusesAll vs) :
      m.Evicts vs none { m with files := m.filesAfterAll vs, console }
  | some {refused rest : List Victim} {v : Victim} {kind : PageKind} {swap : SwapArea}
      {files : Table FileId File} (console : List Event) (split : vs = refused ++ v :: rest)
      (refuses : m.RefusesAll refused) (can : (m.triedAll refused).CanSave v)
      (saved : (m.triedAll refused).Saved v kind swap files) :
      m.Evicts vs (some v.id) ({ m with swap, files, console }.take v kind)

variable {m m' : Machine} {v : Victim} {vs : List Victim} {console : List Event}

/-! Reports, the time and the pages make no difference to what can be saved. -/

variable {clock : Nat} {pages : Table PageRef Page}

theorem refusesAll_view : { m with console, clock, pages }.RefusesAll vs ↔ m.RefusesAll vs := by
  induction vs generalizing m with
  | nil => exact Iff.rfl
  | cons v rest ih => exact and_congr Iff.rfl (ih (m := m.tried v))

theorem filesAfterAll_view (m : Machine) (console : List Event) (clock : Nat)
    (pages : Table PageRef Page) (vs : List Victim) :
    { m with console, clock, pages }.filesAfterAll vs = m.filesAfterAll vs := by
  induction vs generalizing m with
  | nil => rfl
  | cons v rest ih => exact ih (m.tried v)

theorem Saved.of_view {kind : PageKind} {swap : SwapArea} {files : Table FileId File}
    (h : Machine.Saved { m with console, clock, pages } v kind swap files) :
    m.Saved v kind swap files := by
  cases h with
  | anon kind within free holds stored others => exact .anon kind within free holds stored others
  | clean kind clean => exact .clean kind clean
  | dirty kind dirty written => exact .dirty kind dirty written

theorem canSave_file {backing : FileBacking} (kind : v.page.kind = .file backing) : m.CanSave v ↔
    (m.core.dirty v.ref = true → (m.writeBack backing v.phys).1 = backing.readBytes) := by
  rw [CanSave, kind]

theorem canSave_anon {slot : Option SwapSlot} (kind : v.page.kind = .anon slot) : m.CanSave v ↔
    ∃ slot : SwapSlot, slot.index < m.swap.slots ∧ m.swap.holds slot = false := by
  rw [CanSave, kind]

theorem filesAfter_dirty {backing : FileBacking} (kind : v.page.kind = .file backing)
    (dirty : m.core.dirty v.ref = true) :
    m.filesAfter v = m.files.insert backing.file (m.writeBack backing v.phys).2 := by
  rw [filesAfter, kind]
  exact if_pos dirty

theorem filesAfter_anon {slot : Option SwapSlot} (kind : v.page.kind = .anon slot) :
    m.filesAfter v = m.files := by
  rw [filesAfter, kind]

end Machine

theorem File.writeAt_whole {file : File} {bytes : Array UInt8} {offset i : Nat}
    (whole : (file.writeAt bytes offset).1 = bytes.size) (hi : i < bytes.size) :
    (file.writeAt bytes offset).2.data[offset + i]? = bytes[i]? := by
  unfold File.writeAt at whole ⊢
  dsimp only at whole ⊢
  rw [whole, if_neg (by omega), Array.extract_size]
  have hsize := size_overwrite file.data offset bytes
  unfold overwrite
  rw [getElem?_putFrom, if_pos]
  · rw [Nat.add_sub_cancel_left, Array.getElem?_toList]
  · simp only [Array.length_toList, Array.size_append, Array.size_replicate]
    omega

theorem Machine.writeBack_whole {m : Machine} {backing : FileBacking} {phys : PhysPage}
    (whole : (m.writeBack backing phys).1 = backing.readBytes) :
    ∀ i < backing.readBytes, (m.writeBack backing phys).2.data[backing.offset + i]? =
      some ((m.memory.read phys).byteAt i) := by
  intro i hi
  have hsize : (PageBytes.slice (m.memory.read phys) 0 backing.readBytes).size = backing.readBytes :=
    Array.size_ofFn
  have hbyte := File.writeAt_whole (whole.trans hsize.symm) (hsize ▸ hi)
  rwa [PageBytes.getElem?_slice hi, Nat.zero_add] at hbyte

variable {m m' : Machine} {v : Victim} {vs : List Victim}

theorem useFile_ok {α : Type} {id : FileId} {f : File → α × File} {a : α}
    (h : useFile id f m = .ok a m') :
    a = (f (m.file id)).1 ∧ m' = { m with files := m.files.insert id (f (m.file id)).2 } := by
  have h' := modifyGet_ok.1 h
  simp only [Prod.mk.injEq] at h'
  exact ⟨h'.1.symm, h'.2.symm⟩

theorem FileBacking.writeBack_ok {backing : FileBacking} {phys : PhysPage} {whole : Bool}
    (h : backing.writeBack (m.memory.read phys) m = .ok whole m') :
    (whole = true ↔ (m.writeBack backing phys).1 = backing.readBytes) ∧ ∃ console, m' = { m with
      files := m.files.insert backing.file (m.writeBack backing phys).2, console } := by
  obtain ⟨moved, m₁, h₁, h⟩ := bind_ok.1 h
  obtain ⟨rfl, rfl⟩ := useFile_ok h₁
  split at h
  · next hwhole =>
      obtain ⟨rfl, rfl⟩ := pure_ok.1 h
      exact ⟨⟨fun _ => hwhole, fun _ => rfl⟩, m.console, rfl⟩
  · next hshort =>
      obtain ⟨_, m₂, h₂, h⟩ := bind_ok.1 h
      obtain rfl := emit_ok.1 h₂
      obtain ⟨rfl, rfl⟩ := pure_ok.1 h
      exact ⟨⟨nofun, fun hwhole => (hshort hwhole).elim⟩, _, rfl⟩

theorem allocSlot_ok {got : Option SwapSlot} (h : allocSlot m = .ok got m') :
    (got = none ∧ m.swap.allocSlot? = none ∧ m = m') ∨ ∃ slot swap console, got = some slot ∧
      m.swap.allocSlot? = some (slot, swap) ∧ { m with swap, console } = m' := by
  replace h := bind_get_ok.1 h
  cases halloc : m.swap.allocSlot? with
  | none =>
      simp only [halloc] at h
      obtain ⟨rfl, rfl⟩ := pure_ok.1 h
      exact .inl ⟨rfl, rfl, rfl⟩
  | some found =>
      obtain ⟨slot, swap⟩ := found
      simp only [halloc] at h
      obtain ⟨_, m₁, h₁, h⟩ := bind_ok.1 h
      obtain rfl := set_ok.1 h₁
      obtain ⟨_, h₂, rfl⟩ := bind_pure_ok.1 h
      exact .inr ⟨slot, swap, _, rfl, rfl, emit_ok.1 h₂⟩

theorem writeSlot_ok {slot : SwapSlot} {bytes : PageBytes} {u : Unit}
    (h : writeSlot slot bytes m = .ok u m') :
    ∃ swap, m.swap.writeSlot slot bytes = .ok swap ∧ { m with swap } = m' := by
  replace h := bind_get_ok.1 h
  obtain ⟨swap, _, hwrite, h⟩ := bind_ok.1 h
  obtain ⟨hstored, rfl⟩ := ofExcept_ok.1 hwrite
  exact ⟨swap, hstored, set_ok.1 h⟩

theorem Machine.saved_in_slot {slot : SwapSlot} {taken swap : SwapArea} (hs : m.core.Sound)
    (kind : v.page.kind = .anon none) (alloc : m.swap.allocSlot? = some (slot, taken))
    (stored : taken.writeSlot slot (m.core.memory.read v.phys) = .ok swap) :
    m.CanSave v ∧ m.Saved v (.anon (some slot)) swap m.files := by
  obtain ⟨free, hholds, within, hdisk, -⟩ := SwapArea.allocSlot?_some alloc
  have hd : taken.disk ≠ none := by
    rw [hdisk]
    intro hn
    have hnone : m.swap.slots = 0 := hs.slotted.backed hn
    rw [hnone] at within
    exact nomatch within
  obtain ⟨hpage, hothers, hbitmap, -⟩ := SwapArea.writeSlot_ok hd stored
  refine ⟨(Machine.canSave_anon kind).2 ⟨slot, within, free⟩,
    .anon kind within free (fun other => ?_) hpage fun other hother => (hothers other hother).trans ?_⟩
  · have hsame : swap.holds other = taken.holds other := by
      simp only [SwapArea.holds, hbitmap]
    rw [hsame, hholds]
    by_cases ho : other = slot
    · rw [if_pos ho, decide_eq_true ho, Bool.true_or]
    · rw [if_neg ho, decide_eq_false ho, Bool.false_or]
  · simp only [SwapArea.pageIn, hdisk]

/-- How saving a victim ends: its contents are saved, or nothing is left but what its file took. -/
inductive Machine.SaveEnds (m : Machine) (v : Victim) : Option PageKind → Machine → Prop where
  | saved {kind : PageKind} {swap : SwapArea} {files : Table FileId File}
      {mappings : Table PageRef Mapping} (can : m.CanSave v) (saved : m.Saved v kind swap files)
      (same : mappings.erase v.ref = m.mappings.erase v.ref) (console : List Event) :
      SaveEnds m v (some kind) { m with swap, files, mappings, console }
  | failed (cannot : ¬ m.CanSave v) (console : List Event) :
      SaveEnds m v none { m.tried v with console }

theorem PageKind.save_anon_ends {got : Option PageKind} (coherent : m.Coherent)
    (kind : v.page.kind = .anon none) (h : (PageKind.anon none).save v.phys v.ref m = .ok got m') :
    m.SaveEnds v got m' := by
  have hiff := SwapArea.allocSlot?_isSome coherent.covered
  obtain ⟨got, m₁, h₁, h⟩ := bind_ok.1 h
  rcases allocSlot_ok h₁ with ⟨rfl, halloc, rfl⟩ | ⟨slot, taken, console, rfl, halloc, rfl⟩
  · obtain ⟨_, m₂, h₂, h⟩ := bind_ok.1 h
    obtain rfl := emit_ok.1 h₂
    obtain ⟨rfl, rfl⟩ := pure_ok.1 h
    rw [halloc] at hiff
    have ends : m.SaveEnds v none { m.tried v with console := .swapExhausted :: m.console } :=
      .failed (fun can => nomatch hiff.2 ((Machine.canSave_anon kind).1 can)) _
    rwa [Machine.tried, Machine.filesAfter_anon kind] at ends
  · obtain ⟨bytes, _, h₂, h⟩ := bind_ok.1 h
    obtain ⟨rfl, rfl⟩ := readPhys_core h₂
    obtain ⟨_, h₃, rfl⟩ := bind_pure_ok.1 h
    obtain ⟨swap, hstored, rfl⟩ := writeSlot_ok h₃
    obtain ⟨can, saved⟩ := Machine.saved_in_slot coherent.sound kind halloc hstored
    exact .saved can saved rfl _

theorem PageKind.save_file_ends {got : Option PageKind} {backing : FileBacking}
    (kind : v.page.kind = .file backing) (h : (PageKind.file backing).save v.phys v.ref m = .ok got m') :
    m.SaveEnds v got m' := by
  obtain ⟨dirty, _, h₁, h⟩ := bind_ok.1 h
  obtain ⟨hdirty, rfl⟩ := isDirty_core h₁
  have hcan := Machine.canSave_file (m := m) kind
  cases dirty with
  | false =>
      obtain ⟨rfl, rfl⟩ := pure_ok.1 h
      exact .saved (hcan.2 fun hd => nomatch hdirty.trans hd) (.clean kind hdirty.symm) rfl m.console
  | true =>
      obtain ⟨bytes, _, h₂, h⟩ := bind_ok.1 h
      obtain ⟨rfl, rfl⟩ := readPhys_core h₂
      obtain ⟨whole, m₁, h₃, h⟩ := bind_ok.1 h
      obtain ⟨hwhole, console, rfl⟩ := FileBacking.writeBack_ok h₃
      cases whole with
      | true =>
          obtain ⟨_, m₂, h₄, h⟩ := bind_ok.1 h
          obtain rfl := modify_ok.1 h₄
          obtain ⟨rfl, rfl⟩ := pure_ok.1 h
          have hall := hwhole.1 rfl
          exact .saved (hcan.2 fun _ => hall) (.dirty kind hdirty.symm (Machine.writeBack_whole hall))
            (Table.erase_modify _ _ _) console
      | false =>
          obtain ⟨rfl, rfl⟩ := pure_ok.1 h
          have ends : m.SaveEnds v none { m.tried v with console } :=
            .failed (fun can => nomatch hwhole.2 (hcan.1 can hdirty.symm)) console
          rwa [Machine.tried, Machine.filesAfter_dirty kind hdirty.symm] at ends

theorem PageKind.save_ends {got : Option PageKind} (coherent : m.Coherent) (hv : v.Stands m.core)
    (h : v.page.kind.save v.phys v.ref m = .ok got m') : m.SaveEnds v got m' := by
  obtain ⟨found, owned⟩ := hv
  have hs := coherent.sound
  have resident := hs.victim found owned
  cases kind : v.page.kind with
  | uninit target init =>
      have used := hs.used found resident
      rw [kind] at used
      exact nomatch used
  | anon slot =>
      cases slot with
      | some slot => exact (hs.no_slot found resident slot kind).elim
      | none => exact save_anon_ends coherent kind (kind ▸ h)
  | file backing => exact save_file_ends kind (kind ▸ h)

theorem evictVictim_ok {done : Bool} (coherent : m.Coherent) (hv : v.Stands m.core)
    (h : evictVictim v m = .ok done m') :
    (done = false ∧ ¬ m.CanSave v ∧ ∃ console, m' = { m.tried v with console }) ∨
    (done = true ∧ m.CanSave v ∧ ∃ kind swap files console, m.Saved v kind swap files ∧
      m' = { m with swap, files, console }.take v kind) := by
  unfold evictVictim at h
  rw [coherent.sound.entryRef hv.1] at h
  obtain ⟨_, m₁, h₁, h⟩ := bind_ok.1 h
  obtain ⟨got, m₂, h₂, h⟩ := bind_ok.1 h
  have told := emit_ok.1 h₁
  generalize .swapOut v.ref.va v.phys :: m.console = before at told
  subst told
  have coherent' : Machine.Coherent { m with console := before } :=
    ⟨coherent.1, coherent.2, coherent.3⟩
  cases PageKind.save_ends coherent' hv h₂ with
  | @saved kind swap files mappings can saved same console =>
      obtain ⟨_, m₃, h₃, h⟩ := bind_ok.1 h
      obtain ⟨_, m₄, h₄, h⟩ := bind_ok.1 h
      obtain ⟨_, m₅, h₅, h⟩ := bind_ok.1 h
      obtain ⟨_, m₆, h₆, h⟩ := bind_ok.1 h
      obtain ⟨_, h₇, rfl⟩ := bind_pure_ok.1 h
      refine .inr ⟨rfl, can, kind, swap, files, .frameEvicted v.ref.va v.id :: console,
        saved.of_view, ?_⟩
      have taken : m₆ = Machine.take { m with swap, files, mappings, console } v kind := by
        rw [← modify_ok.1 h₆, ← modify_ok.1 h₅, ← modify_ok.1 h₄, ← modify_ok.1 h₃]
        rfl
      rw [← emit_ok.1 h₇, taken, Machine.take, same]
      rfl
  | failed cannot console =>
      obtain ⟨_, h₃, rfl⟩ := bind_pure_ok.1 h
      refine .inl ⟨rfl, cannot, .victimFailed v.ref.va :: console, ?_⟩
      rw [← emit_ok.1 h₃]
      rfl

theorem Machine.triedAll_view (m : Machine) (console : List Event) (clock : Nat)
    (pages : Table PageRef Page) (vs : List Victim) :
    Machine.triedAll { m with console, clock, pages } vs =
      { m.triedAll vs with console, clock, pages } := by
  rw [triedAll, filesAfterAll_view]
  rfl

theorem evictFirst_evicts {E : Panic → Machine → Prop} (coherent : m.Coherent)
    (hvs : ∀ v ∈ vs, v.Stands m.core) : Ends E (evictFirst vs) m (m.Evicts vs) := by
  induction vs generalizing m with
  | nil => exact .pure (.none m.console trivial)
  | cons v rest ih =>
      have hv := hvs v List.mem_cons_self
      obtain ⟨n, accounted⟩ := coherent.accounted
      refine (evictVictim_stops coherent.sound accounted hv).bind fun done m₁ h₁ _ => ?_
      have run := evictVictim_steps hv h₁
      rcases evictVictim_ok coherent hv h₁ with ⟨rfl, cannot, console, rfl⟩ |
        ⟨rfl, can, kind, swap, files, console, saved, rfl⟩
      · have hrest := ih (coherent.steps run) fun w hw => hvs w (List.mem_cons_of_mem v hw)
        refine hrest.imp fun got m' _ evicts => ?_
        cases evicts with
        | none console' refused =>
            rw [Machine.filesAfterAll_view]
            exact .none (m := m) console' ⟨cannot, Machine.refusesAll_view.1 refused⟩
        | @some refused rest' w kind swap files console' split refuses can saved =>
            rw [Machine.triedAll_view] at can saved
            have longer : v :: rest = (v :: refused) ++ w :: rest' := congrArg (v :: ·) split
            exact .some (m := m) console' longer
              ⟨cannot, Machine.refusesAll_view.1 refuses⟩ can saved.of_view
      · exact .pure (.some console (List.nil_append (v :: rest)).symm trivial can saved)

theorem evict_ends {E : Panic → Machine → Prop} (coherent : m.Coherent) :
    Ends E evict m (m.Evicts m.victims) := by
  refine Safe.get.next fun _ _ hget => ?_
  obtain ⟨rfl, rfl⟩ := get_ok.1 hget
  exact evictFirst_evicts coherent fun _ hv => Machine.victims_stand hv

theorem Machine.Evicts.none_iff {got : Option FrameId} (h : m.Evicts vs got m') :
    got = Option.none ↔ m.RefusesAll vs := by
  cases h with
  | none _ refused => exact ⟨fun _ => refused, fun _ => rfl⟩
  | @some refused rest v _ _ _ _ split _ can =>
      refine ⟨nofun, fun refuses => ?_⟩
      subst split
      clear * - can refuses
      induction refused generalizing m with
      | nil => exact (refuses.1 can).elim
      | cons w before ih => exact ih can refuses.2

theorem Machine.Evicts.second {a b : Victim} (h : m.Evicts [a, b] (Option.some b.id) m')
    (nodup : ([a, b].map Victim.id).Nodup) : m.RefusesAll [a] ∧ (m.tried a).CanSave b := by
  obtain ⟨hne, -⟩ := List.nodup_cons.1 nodup
  generalize hgot : Option.some b.id = got at h
  cases h with
  | none => exact nomatch hgot
  | @some refused rest v _ _ _ _ split refuses can =>
      have hid := Option.some.inj hgot
      rcases refused with _ | ⟨w, _ | ⟨w', before⟩⟩
      · cases split
        exact (hne (List.mem_singleton.2 hid.symm)).elim
      · cases split
        exact ⟨refuses, can⟩
      · have hlength := congrArg List.length split
        simp only [List.length_append, List.length_cons, List.length_nil] at hlength
        omega

theorem Memory.free_of_acquired {memory memory' : Memory} {phys : PhysPage}
    (h : memory.acquire? = some (phys, memory')) : memory.pool.free = memory'.pool.free + 1 := by
  unfold Memory.acquire? at h
  split at h
  · next page pool taken =>
      cases h
      exact Pool.free_take taken
  · exact nomatch h

theorem allocateFrame_ok {id : FrameId} (coherent : m.Coherent) (h : allocateFrame m = .ok id m') :
    (∃ phys memory console, m.memory.acquire? = some (phys, memory) ∧
      id = (m.frames.add ⟨phys, []⟩).1 ∧
      m' = { m with memory, frames := (m.frames.add ⟨phys, []⟩).2, console }) ∨
    (m.memory.acquire? = none ∧ m.Evicts m.victims (some id) m') :=
  (allocateFrame_parts h).imp_right fun ⟨empty, evicts⟩ =>
    ⟨empty, (evict_ends (E := fun _ _ => True) coherent).ok evicts⟩

theorem allocateFrame_ok_iff (coherent : m.Coherent) : (∃ id m', allocateFrame m = .ok id m') ↔
    (m.memory.pool.free = 0 → ¬ m.RefusesAll m.victims) := by
  constructor
  · rintro ⟨id, m', h⟩ hfree
    rcases allocateFrame_ok coherent h with ⟨phys, memory, console, taken, -⟩ | ⟨-, evicts⟩
    · exact nomatch (Memory.free_of_acquired taken).symm.trans hfree
    · exact fun refuses => nomatch evicts.none_iff.2 refuses
  · intro had
    have stops : Stops (fun _ _ => False) allocateFrame m := by
      refine Safe.get.next fun _ _ hget => ?_
      obtain ⟨rfl, rfl⟩ := get_ok.1 hget
      cases htaken : m.memory.acquire? with
      | some taken => exact ((Safe.set _).bind fun _ => (emit_safe _).bind fun _ => Safe.pure _).stops
      | none =>
          refine (evict_ends coherent).bind fun got m₁ _ evicts => ?_
          cases got with
          | some id => exact (Safe.pure id).stops
          | none => exact (had (Memory.free_of_acquire htaken) (evicts.none_iff.1 rfl)).elim
    obtain ⟨id, m', h, -⟩ := stops.result
    exact ⟨id, m', h⟩

theorem ends_iff {α : Type} {x : KernelM α} :
    (∃ e m', x m = .error e m') ↔ ¬ ∃ a m', x m = .ok a m' := by
  cases h : x m with
  | ok a m' => exact ⟨nofun, fun hn => (hn ⟨a, m', rfl⟩).elim⟩
  | error e m' => exact ⟨fun _ => nofun, fun _ => ⟨e, m', rfl⟩⟩

/-! Which frames may be taken, and in which order they are tried. -/

namespace Machine

theorem mem_victims : v ∈ m.victims ↔ v.Stands m.core ∧ v.ref ∉ m.held := by
  have hperm : m.victims.Perm _ := Victim.sortByAge_perm _
  constructor
  · intro h
    refine ⟨victims_stand h, fun hheld => ?_⟩
    obtain ⟨⟨id, frame⟩, -, hv⟩ := List.mem_filterMap.1 (hperm.mem_iff.1 h)
    change m.victim? id frame = some v at hv
    unfold victim? at hv
    split at hv
    · split at hv
      · cases hv
      · next free =>
          obtain ⟨page, -, rfl⟩ := Option.map_eq_some_iff.1 hv
          exact free hheld
    · cases hv
  · rintro ⟨⟨found, owned⟩, free⟩
    refine hperm.mem_iff.2 (List.mem_filterMap.2
      ⟨(v.id, ⟨v.phys, [v.ref]⟩), Table.find?_eq_some.1 owned, ?_⟩)
    change m.victim? v.id ⟨v.phys, [v.ref]⟩ = some v
    have found : m.pages.find? v.ref = some v.page := found
    simp only [victim?, if_neg free, found, Option.map_some]

theorem victim?_id {id : FrameId} {frame : Frame} (h : m.victim? id frame = some v) : v.id = id := by
  unfold victim? at h
  split at h
  · split at h
    · cases h
    · obtain ⟨page, -, rfl⟩ := Option.map_eq_some_iff.1 h
      rfl
  · cases h

theorem victims_nodup (m : Machine) : (m.victims.map Victim.id).Nodup := by
  have hperm : m.victims.Perm _ := Victim.sortByAge_perm _
  refine (hperm.map Victim.id).nodup_iff.2 ?_
  have hsub (rows : List (FrameId × Frame)) :
      ((rows.filterMap fun row => m.victim? row.1 row.2).map Victim.id).Sublist (rows.map Prod.fst) := by
    induction rows with
    | nil => exact List.Sublist.refl _
    | cons row rest ih =>
        rw [List.filterMap_cons]
        split
        · exact ih.cons _
        · next v hv =>
            rw [List.map_cons, List.map_cons, victim?_id hv]
            exact ih.cons_cons _
  exact m.frames.entries.nodup.sublist (hsub _)

theorem victims_aged (m : Machine) :
    m.victims.Pairwise fun a b => a.page.lastAccess ≤ b.page.lastAccess :=
  (Victim.sortByAge_pairwise _).imp fun {a b} h => by
    simp only [Victim.before, Bool.or_eq_true, decide_eq_true_eq, Bool.and_eq_true, beq_iff_eq] at h
    omega

theorem Coherent.phys_apart (h : m.Coherent) (hv : v.Stands m.core) {id : FrameId} {frame : Frame}
    (found : m.frames.find? id = some frame) (same : frame.page = v.phys) : id = v.id :=
  h.sound.pooled.inj id v.id frame _ found hv.2 same

end Machine

/-- Whatever pages others have locked, the frames with one owner whose page is not locked are tried, the
one that was used the longest time ago first, until the contents of one can be saved; that one is taken,
and nothing else changes but the files of those that were tried before it. The machine stops for want of
a frame exactly if the pool is empty and none can be saved. -/
theorem eviction_takes_oldest_savable {frames : Nat} {sectors : Option Nat} {files : List File}
    {allocator : Allocator} (passes : (Machine.fresh frames sectors files allocator).Passes m) :
    (∀ id phys ref, (∃ page, ⟨id, phys, ref, page⟩ ∈ m.victims) ↔
      m.frames.find? id = some ⟨phys, [ref]⟩ ∧ ref ∉ m.held) ∧
    (∀ v ∈ m.victims, m.pages.find? v.ref = some v.page ∧ v.page.frame = some v.id ∧
      ∀ id frame, m.frames.find? id = some frame → frame.page = v.phys → id = v.id) ∧
    (m.victims.map Victim.id).Nodup ∧
    (m.victims.Pairwise fun a b => a.page.lastAccess ≤ b.page.lastAccess) ∧
    (∃ got m', evict m = .ok got m' ∧ m.Evicts m.victims got m' ∧
      (got = none ↔ m.RefusesAll m.victims)) ∧
    ((∃ e m', allocateFrame m = .error e m') ↔
      m.memory.pool.free = 0 ∧ ∃ m', evict m = .ok none m') := by
  have coherent := passes.coherent
  have hs := coherent.sound
  obtain ⟨got, m', ran, evicts⟩ := (evict_ends coherent).result
  refine ⟨fun id phys ref => ⟨?_, ?_⟩, fun v hv => ?_, m.victims_nodup, m.victims_aged,
    ⟨got, m', ran, evicts, evicts.none_iff⟩, ?_⟩
  · rintro ⟨page, hv⟩
    obtain ⟨⟨-, owned⟩, free⟩ := Machine.mem_victims.1 hv
    exact ⟨owned, free⟩
  · rintro ⟨owned, free⟩
    obtain ⟨page, found, -⟩ := hs.owned.page_of id _ ref owned List.mem_cons_self
    exact ⟨page, Machine.mem_victims.2 ⟨⟨found, owned⟩, free⟩⟩
  · have stands := Machine.victims_stand hv
    exact ⟨stands.1, hs.victim stands.1 stands.2, fun id frame => coherent.phys_apart stands⟩
  · rw [ends_iff, allocateFrame_ok_iff coherent, Classical.not_imp, Classical.not_not,
      ← evicts.none_iff]
    refine and_congr_right fun _ => ⟨?_, ?_⟩
    · rintro rfl
      exact ⟨m', ran⟩
    · rintro ⟨m₁, ran₁⟩
      cases ran.symm.trans ran₁
      rfl

/-- Two pages of a file are dirty, and the file takes one byte of the first and all of the second; the
page that nobody used for the longest time is locked. -/
theorem eviction_takes_oldest_savable_after_failure : ∃ m a b m',
    (Machine.fresh 3 (some 8) [{ File.ofData #[46, 46, 46, 46] false with
      writeCaps := ⟨fun k => if k = 0 then some 1 else none, 0⟩ }]).Passes m ∧
    m.held = [⟨0, ⟨1⟩⟩] ∧ m.victims = [a, b] ∧ evict m = .ok (some b.id) m' ∧
    m.RefusesAll [a] ∧ (m.tried a).CanSave b ∧ (m'.file 0).data = #[1, 46, 3, 4] := by
  have played : ((Machine.fresh 3 (some 8) [{ File.ofData #[46, 46, 46, 46] false with
      writeCaps := ⟨fun k => if k = 0 then some 1 else none, 0⟩ }]).serve [
      .declare 0 (.ofBits 4096) true .anon none, .claim 0 (.ofBits 4096),
      .insert 0 (.ofBits 8192) true (.file 0 0 2), .insert 0 (.ofBits 12288) true (.file 0 2 2),
      .write 0 (.ofBits 8192) #[1, 2] (.ofBits 0), .write 0 (.ofBits 12288) #[3, 4] (.ofBits 0)]).any
        (fun r => ({ r.2 with held := [⟨0, ⟨1⟩⟩] } : Machine).victims.length == 2 &&
          (({ r.2 with held := [⟨0, ⟨1⟩⟩] } : Machine).outcome evict).any fun e =>
            e.1 == (({ r.2 with held := [⟨0, ⟨1⟩⟩] } : Machine).victims[1]?).map Victim.id &&
              (e.2.file 0).data == #[1, 46, 3, 4]) = true := by
    decide +kernel
  obtain ⟨⟨log, m₁⟩, hserved, hcheck⟩ := (Option.any_eq_true _ _).1 played
  have passes := (Machine.Reaches.refl.serve hserved).passes [⟨0, ⟨1⟩⟩]
  dsimp only at hcheck
  generalize hm : ({ m₁ with held := [⟨0, ⟨1⟩⟩] } : Machine) = m at hcheck passes
  obtain ⟨htwo, hcheck⟩ := Bool.and_eq_true_iff.1 hcheck
  obtain ⟨a, b, victims⟩ := List.length_eq_two.1 (beq_iff_eq.1 htwo)
  obtain ⟨⟨got, m'⟩, evicted, hcheck⟩ := (Option.any_eq_true _ _).1 hcheck
  obtain ⟨hgot, hdata⟩ := Bool.and_eq_true_iff.1 hcheck
  rw [victims] at hgot
  obtain rfl : got = some b.id := beq_iff_eq.1 hgot
  have ran := Machine.outcome_eq_some.1 evicted
  obtain ⟨-, -, nodup, -, ⟨_, _, ran', evicts, -⟩, -⟩ := eviction_takes_oldest_savable passes
  cases ran.symm.trans ran'
  rw [victims] at nodup evicts
  obtain ⟨refuses, can⟩ := evicts.second nodup
  exact ⟨m, a, b, m', passes, hm ▸ rfl, victims, ran, refuses, can, beq_iff_eq.1 hdata⟩

/-- What a dirty page has beyond the part that shows its file is not saved: it is gone when the page
comes back. -/
theorem eviction_loses_bytes_beyond_file : ∃ m id m' m'' before after,
    (Machine.fresh 2 (some 16) [.ofData #[104, 105] false]).Passes m ∧
    evict m = .ok (some id) m' ∧ m.core.held? ⟨0, ⟨1⟩⟩ = some before ∧
    claim ⟨0, ⟨1⟩⟩ m' = .ok true m'' ∧ m''.core.held? ⟨0, ⟨1⟩⟩ = some after ∧
    before.byteAt 2 = 7 ∧ after.byteAt 2 = 0 := by
  have played : ((Machine.fresh 2 (some 16) [.ofData #[104, 105] false]).serve [
      .insert 0 (.ofBits 4096) true (.file 0 0 2),
      .write 0 (.ofBits 4098) #[7] (.ofBits 0)]).any (fun r =>
        (r.2.outcome evict).any fun e => e.1.isSome && (e.2.outcome (claim ⟨0, ⟨1⟩⟩)).any fun f =>
          f.1 && (r.2.core.held? ⟨0, ⟨1⟩⟩).any (fun bytes => bytes.byteAt 2 == 7) &&
            (f.2.core.held? ⟨0, ⟨1⟩⟩).any (fun bytes => bytes.byteAt 2 == 0)) = true := by
    decide +kernel
  obtain ⟨⟨log, m⟩, hserved, hcheck⟩ := (Option.any_eq_true _ _).1 played
  obtain ⟨⟨got, m'⟩, evicted, hcheck⟩ := (Option.any_eq_true _ _).1 hcheck
  obtain ⟨hgot, hcheck⟩ := Bool.and_eq_true_iff.1 hcheck
  obtain ⟨⟨done, m''⟩, claimed, hcheck⟩ := (Option.any_eq_true _ _).1 hcheck
  obtain ⟨hcheck, hafter⟩ := Bool.and_eq_true_iff.1 hcheck
  obtain ⟨hdone, hbefore⟩ := Bool.and_eq_true_iff.1 hcheck
  obtain ⟨id, rfl⟩ := Option.isSome_iff_exists.1 hgot
  obtain ⟨before, hheld, hbyte⟩ := (Option.any_eq_true _ _).1 hbefore
  obtain ⟨after, hheld', hbyte'⟩ := (Option.any_eq_true _ _).1 hafter
  cases hdone
  exact ⟨m, id, m', m'', before, after, (Machine.Reaches.refl.serve hserved).passes m.held,
    Machine.outcome_eq_some.1 evicted, hheld, Machine.outcome_eq_some.1 claimed, hheld',
    beq_iff_eq.1 hbyte, beq_iff_eq.1 hbyte'⟩

end DemandPaging
