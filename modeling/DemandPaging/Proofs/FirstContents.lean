import DemandPaging.Proofs.ResolvedFaults

/-!
The first contents of pages. A frame is empty when it is taken for a page, wherever it comes from. So
what a page holds once it was used for the first time is up to what its initializer finds, and has
nothing to do with what was in memory before.
-/

namespace DemandPaging

open DemandPaging.Core
open Keeps

variable {m m' m₁ : Machine} {ref : PageRef} {page : Page} {kind kind' : PageKind} {id : FrameId}
  {phys : PhysPage} {frames : Nat} {sectors : Option Nat} {files : List File}
  {allocator : Allocator}

namespace PageKind

/-- The range of a file that is read when the page is used for the first time. -/
def source : PageKind → Option FileBacking
  | uninit _ (some (.segment backing)) => some backing
  | uninit (.file backing) none => some backing
  | _ => none

def program? : PageKind → Option ProgramId
  | uninit _ (some (.program id)) => some id
  | _ => none

end PageKind

/-- What the initializer of a page finds: what is delivered of its file, and the routine that it runs. -/
structure Findings where
  delivered : Option (Array UInt8)
  routine : Option Routine

def Findings.contents (found : Findings) : PageBytes :=
  match found.routine with
  | some routine => (routine.run routine.calls PageBytes.zero).1
  | none => (found.delivered.map PageBytes.ofArray).getD PageBytes.zero

def Machine.finds (m : Machine) (kind : PageKind) : Findings where
  delivered := kind.source.map fun backing =>
    ((m.file backing.file).read backing.offset backing.readBytes).1
  routine := kind.program?.bind m.core.programs

theorem Machine.finds_congr (same : m'.files = m.files) (programs : m'.core.programs = m.core.programs)
    (kind : PageKind) : m'.finds kind = m.finds kind := by
  simp only [finds, file, same, programs]

theorem FileBacking.load_ok {backing : FileBacking} {bytes : PageBytes}
    (h : backing.load m = .ok bytes m') :
    bytes = PageBytes.ofArray ((m.file backing.file).read backing.offset backing.readBytes).1 := by
  obtain ⟨got, m₁, h₁, h⟩ := bind_ok.1 h
  obtain ⟨rfl, -⟩ := useFile_core h₁
  exact (pure_ok.1 h).1.symm

theorem File.read_reopen (file : File) (offset count : Nat) :
    (file.reopen.2.read offset count).1 = (file.read offset count).1 := by
  unfold File.reopen
  dsimp only
  split <;> rfl

theorem Initializer.run_first {init : Initializer} {retry : Option Initializer} {target : PageTarget}
    {bytes : PageBytes} (copied : init.duplicate m = .ok retry m₁)
    (h : init.run PageBytes.zero m₁ = .ok (bytes, true) m') :
    bytes = (m.finds (.uninit target (some init))).contents := by
  cases init with
  | segment backing =>
      obtain ⟨_, m₂, h₁, copied⟩ := bind_ok.1 copied
      obtain ⟨granted, m₃, h₂, h₁⟩ := bind_ok.1 h₁
      obtain ⟨-, rfl⟩ := pure_ok.1 copied
      have same : m₂ = m₃ := by
        cases granted with
        | true | false => exact (pure_ok.1 h₁).2.symm
      obtain ⟨loaded, m₄, h₃, h⟩ := bind_ok.1 h
      obtain ⟨_, _, -, h⟩ := bind_ok.1 h
      cases (pure_ok.1 h).1
      rw [FileBacking.load_ok h₃, same, useFile_file h₂, Function.update_self, File.read_reopen]
      rfl
  | program id =>
      have made := Initializer.run_produces h
      rw [(Initializer.duplicate_core copied).1] at made
      generalize hr : (bytes, true) = r at made
      generalize m'.core = c at made
      cases made with
      | program found =>
          have routine : (m.finds (.uninit target (some (.program id)))).routine = some _ := found
          rw [Findings.contents, routine]
          exact congrArg Prod.fst hr
      | missing => cases hr
  | alwaysFail =>
      obtain ⟨hr, -⟩ := pure_ok.1 h
      exact nomatch hr

theorem writePhys_read {bytes : PageBytes} {u : Unit} (h : writePhys phys bytes m = .ok u m') :
    m'.core.memory.read phys = bytes := by
  rw [writePhys_core h]
  exact Memory.read_write_self

theorem PageKind.fill_first (unused : kind.isUninit = true)
    (clear : m.core.memory.read phys = PageBytes.zero) (h : kind.fill phys m = .ok (kind', true) m') :
    m'.core.memory.read phys = (m.finds kind).contents := by
  cases fill_filled h with
  | newAnon wrote => exact writePhys_read wrote
  | newFile loaded wrote =>
      rw [writePhys_read wrote, FileBacking.load_ok loaded]
      rfl
  | made copied ran wrote closed =>
      rw [(Initializer.duplicate_core copied).1, clear] at ran
      rw [closeInitializer_core closed, writePhys_read wrote]
      exact Initializer.run_first copied ran
  | zero | slot | file => exact nomatch unused

/-- What a page is filled with when it is claimed: what its slot or its file has of it if it was in use
before, and what its initializer makes of an empty page if not. -/
def Machine.brings (m : Machine) : PageKind → PageBytes
  | .anon (some slot) => m.swap.pageIn slot
  | .file backing =>
      PageBytes.ofArray ((m.file backing.file).read backing.offset backing.readBytes).1
  | kind => (m.finds kind).contents

theorem Machine.brings_congr (files : m'.files = m.files) (programs : m'.core.programs = m.core.programs)
    (swap : m'.swap = m.swap) (kind : PageKind) : m'.brings kind = m.brings kind := by
  unfold brings
  split
  · rw [swap]
  · simp only [file, files]
  · rw [finds_congr files programs]

theorem Machine.brings_first (m : Machine) (unused : kind.isUninit = true) :
    m.brings kind = (m.finds kind).contents := by
  cases kind with
  | uninit => rfl
  | anon | file => exact nomatch unused

theorem PageKind.fill_brings (backed : ∀ slot, kind = .anon (some slot) → m.core.swap.disk ≠ none)
    (clear : m.core.memory.read phys = PageBytes.zero) (h : kind.fill phys m = .ok (kind', true) m') :
    m'.core.memory.read phys = m.brings kind := by
  cases fill_filled h with
  | newAnon | newFile | made => exact fill_first rfl clear h
  | zero wrote => exact writePhys_read wrote
  | @slot slot _ _ _ stored wrote freed =>
      obtain ⟨swap, -, hm'⟩ := freeSlot_core freed
      rw [hm']
      exact (writePhys_read wrote).trans (SwapArea.readSlot_ok (backed slot rfl) stored)
  | file loaded wrote =>
      rw [writePhys_read wrote, FileBacking.load_ok loaded]
      rfl

theorem mapAndFill_brings (backed : ∀ slot, page.kind = .anon (some slot) → m.core.swap.disk ≠ none)
    (clear : m.core.memory.read phys = PageBytes.zero)
    (h : mapAndFill ref page phys m = .ok (kind', true) m') :
    m'.core.memory.read phys = m.brings page.kind := by
  rcases mapAndFill_parts h with ⟨m₁, m₂, granted, told, filled⟩ | ⟨failed, -⟩
  · have files : m₁.files = m.files := install_keeps _ _ _ granted
    have hm₂ := (emit_core told).trans (install_granted granted)
    have swap : m₂.core.swap = m.core.swap := (congrArg Core.swap hm₂ :)
    rw [← Machine.brings_congr ((emit_files _ told).trans files) (by rw [hm₂]; rfl) swap page.kind]
    refine PageKind.fill_brings (fun slot kind => ?_) ?_ filled
    · rw [swap]
      exact backed slot kind
    · rw [hm₂]
      exact clear
  · exact nomatch congrArg Prod.snd failed

theorem claimVacant_brings (hs : m.core.Sound) (taken : allocateFrame m = .ok id m₁)
    (backed : ∀ slot, page.kind = .anon (some slot) → m₁.core.swap.disk ≠ none)
    (h : claimVacant ref page m = .ok true m') : m'.core.held? ref = some (m₁.brings page.kind) := by
  obtain ⟨away, _, _, _, m₂, kind, m₃, h₁, h₂, h₃, h₄, ended, -⟩ := claimVacant_parts h
  cases taken.symm.trans h₁
  obtain ⟨steps, ⟨phys, free⟩, -⟩ := allocateFrame_core hs taken
  have clear := (steps.sound hs).pooled.clear id phys free
  obtain ⟨frame, hframe, rfl, -⟩ := physPage_core h₂
  cases free.symm.trans hframe
  obtain ⟨frame, hframe, hm₂⟩ := link_core h₃
  cases free.symm.trans hframe
  obtain ⟨_, m₄, h₅, h₆⟩ := ended rfl
  have owned : m₃.core.frames.find? id = some ⟨phys, [ref]⟩ := by
    obtain ⟨ds, maps⟩ := mapAndFill_core hm₂ h₄
    generalize m₃.core = c at maps
    cases maps with
    | filled => exact FrameTable.find?_update_self
  have swap : m₂.core.swap = m₁.core.swap := by
    rw [hm₂]
    rfl
  have same : m₂.brings page.kind = m₁.brings page.kind :=
    Machine.brings_congr (link_keeps _ _ h₃) (by rw [hm₂]; rfl) swap page.kind
  have there := stamp_found m₃.core ref { page with frame := some id, cow := false, kind }
  have held := held_resident (c := m₃.core.stamp ref _) there rfl owned
  rw [emit_core h₆, (touch_core h₅).2, held, ← same]
  refine congrArg some (mapAndFill_brings (fun slot kind => ?_) ?_ h₄)
  · rw [swap]
    exact backed slot kind
  · rw [hm₂]
    exact clear

theorem claimVacant_first (hs : m.core.Sound) (unused : page.kind.isUninit = true)
    (taken : allocateFrame m = .ok id m₁) (h : claimVacant ref page m = .ok true m') :
    m'.core.held? ref = some (m₁.finds page.kind).contents := by
  rw [← m₁.brings_first unused]
  refine claimVacant_brings hs taken (fun slot kind => ?_) h
  rw [kind] at unused
  exact nomatch unused

namespace Core

/-- A frame that nobody has, with a page of memory of its own that is all zero. -/
def Blank (c : Core) (id : FrameId) : Prop :=
  ∃ phys, c.frames.find? id = some ⟨phys, []⟩ ∧ c.memory.read phys = PageBytes.zero ∧
    (∀ other frame, c.frames.find? other = some frame → frame.page = phys → other = id) ∧
    (∀ ref page, c.pages.find? ref = some page → page.frame ≠ some id) ∧
    ∀ ref entry, c.mappings.find? ref = some entry → entry.page ≠ phys

theorem Sound.blank {c : Core} (hs : c.Sound) (free : c.frames.find? id = some ⟨phys, []⟩) :
    c.Blank id := by
  have alone (other : FrameId) (frame : Frame) (found : c.frames.find? other = some frame)
      (same : frame.page = phys) : other = id :=
    hs.pooled.inj other id frame ⟨phys, []⟩ found free same
  refine ⟨phys, free, hs.pooled.clear id phys free, alone, hs.owned.unowned free,
    fun ref entry found leads => ?_⟩
  obtain ⟨page, i, frame, there, resident, owned, same, -⟩ := hs.mapped ref entry found
  exact hs.owned.unowned free ref page there (alone i frame owned (same.trans leads) ▸ resident)

end Core

inductive PageRef.Uses (ref : PageRef) : KernelM Bool → Prop where
  | claimed : ref.Uses (claim ref)
  | accessed (write : Bool) : ref.Uses (resolve ref write)

theorem PageRef.Uses.claims {x : KernelM Bool} (uses : ref.Uses x)
    (found : m.core.pages.find? ref = some page) (away : page.frame = none)
    (h : x m = .ok true m') : claimVacant ref page m = .ok true m' := by
  cases uses with
  | claimed =>
      obtain ⟨got, _, h₁, h⟩ := bind_ok.1 h
      obtain ⟨rfl, rfl⟩ := page?_core h₁
      rw [found] at h
      simpa only [away, Option.isSome_none, Bool.false_eq_true, if_false] using h
  | accessed write =>
      obtain ⟨got, _, h₁, h⟩ := bind_ok.1 h
      obtain ⟨rfl, rfl⟩ := page?_core h₁
      rw [found] at h
      dsimp only at h
      split at h
      · obtain ⟨_, _, -, h⟩ := bind_ok.1 h
        exact nomatch (pure_ok.1 h).1
      · simpa only [away] using h

/-- A frame that is taken is empty and belongs to nobody, whatever was done before. So two machines in
which the initializers of two unused pages find the same fill these pages with the same bytes, whatever
else they held. -/
theorem first_contents_independent {n n₁ n' : Machine} {frames' : Nat} {sectors' : Option Nat}
    {files' : List File} (passes : (Machine.fresh frames sectors files allocator).Passes m)
    (passes' : (Machine.fresh frames' sectors' files').Passes n) :
    (∀ id m₁, allocateFrame m = .ok id m₁ → m₁.core.Blank id) ∧
      ∀ ref ref' page page' x y id id', m.pages.find? ref = some page →
        n.pages.find? ref' = some page' → page.kind.isUninit = true → page'.kind.isUninit = true →
        ref.Uses x → ref'.Uses y → x m = .ok true m' → y n = .ok true n' →
        allocateFrame m = .ok id m₁ → allocateFrame n = .ok id' n₁ →
        m₁.finds page.kind = n₁.finds page'.kind →
          m'.core.held? ref = some (m₁.finds page.kind).contents ∧
            n'.core.held? ref' = m'.core.held? ref := by
  have hs := passes.sound
  have hs' := passes'.sound
  refine ⟨fun id m₁ taken => ?_, fun ref ref' page page' x y id id' found found' unused unused' uses
    uses' used used' taken taken' same => ?_⟩
  · obtain ⟨steps, ⟨phys, free⟩, -⟩ := allocateFrame_core hs taken
    exact (steps.sound hs).blank free
  · have away := hs.owned.unused ref page found unused
    have away' := hs'.owned.unused ref' page' found' unused'
    have held := claimVacant_first hs unused taken (uses.claims found away used)
    have held' := claimVacant_first hs' unused' taken' (uses'.claims found' away' used')
    exact ⟨held, by rw [held, held', same]⟩

/-- In one machine an initializer failed halfway and a page that is full of data is in the only frame; the
other machine is new. A page that is to begin with three bytes of a file is the same in both. -/
theorem first_contents_independent_after_failure : ∃ m n m₁ n₁ m' n' page page' id id',
    (Machine.fresh 1 (some 16) [.ofData #[1, 2, 3] false]).Passes m ∧
      (Machine.fresh 4 none [.ofData #[1, 2, 3] false]).Passes n ∧
      m.pages.find? ⟨0, ⟨2⟩⟩ = some page ∧ n.pages.find? ⟨0, ⟨2⟩⟩ = some page' ∧
      page.kind.isUninit = true ∧ page'.kind.isUninit = true ∧
      allocateFrame m = .ok id m₁ ∧ allocateFrame n = .ok id' n₁ ∧
      m₁.finds page.kind = n₁.finds page'.kind ∧
      claim ⟨0, ⟨2⟩⟩ m = .ok true m' ∧ resolve ⟨0, ⟨2⟩⟩ false n = .ok true n' ∧
      m₁.core.Blank id ∧ m'.core.held? ⟨0, ⟨2⟩⟩ = some (.ofArray #[1, 2, 3]) ∧
      n'.core.held? ⟨0, ⟨2⟩⟩ = m'.core.held? ⟨0, ⟨2⟩⟩ := by
  have played : ((Machine.fresh 1 (some 16) [.ofData #[1, 2, 3] false]).serve [
      .declare 0 (.ofBits 4096) true .anon (some (.program (.filling 7 100 1 (.always true)))),
      .claim 0 (.ofBits 4096), .declare 0 (.ofBits 12288) true .anon none,
      .write 0 (.ofBits 12288) #[255, 255, 255, 255, 255] (.ofBits 0),
      .declare 0 (.ofBits 8192) true .anon (some (.segment 0 0 3))]).any (fun r =>
        ((Machine.fresh 4 none [.ofData #[1, 2, 3] false]).serve [
          .declare 0 (.ofBits 8192) true .anon (some (.segment 0 0 3))]).any fun q =>
            (r.2.pages.find? ⟨0, ⟨2⟩⟩).any fun page => (q.2.pages.find? ⟨0, ⟨2⟩⟩).any fun page' =>
              (page.kind.isUninit && page.kind.program?.isNone) &&
              ((page'.kind.isUninit && page'.kind.program?.isNone) &&
              ((r.2.outcome allocateFrame).any fun x => (q.2.outcome allocateFrame).any fun y =>
                decide ((x.2.finds page.kind).delivered = some #[1, 2, 3]) &&
                (decide ((y.2.finds page'.kind).delivered = some #[1, 2, 3]) &&
                ((r.2.outcome (claim ⟨0, ⟨2⟩⟩)).any fun u => u.1 &&
                (q.2.outcome (resolve ⟨0, ⟨2⟩⟩ false)).any fun v => v.1))))) = true := by
    decide +kernel
  obtain ⟨⟨log, m⟩, hserved, hcheck⟩ := (Option.any_eq_true _ _).1 played
  obtain ⟨⟨log', n⟩, hserved', hcheck⟩ := (Option.any_eq_true _ _).1 hcheck
  obtain ⟨page, found, hcheck⟩ := (Option.any_eq_true _ _).1 hcheck
  obtain ⟨page', found', hcheck⟩ := (Option.any_eq_true _ _).1 hcheck
  simp only [Bool.and_eq_true, Option.isNone_iff_eq_none] at hcheck
  obtain ⟨⟨unused, plain⟩, ⟨unused', plain'⟩, hcheck⟩ := hcheck
  obtain ⟨⟨id, m₁⟩, taken, hcheck⟩ := (Option.any_eq_true _ _).1 hcheck
  obtain ⟨⟨id', n₁⟩, taken', hcheck⟩ := (Option.any_eq_true _ _).1 hcheck
  simp only [Bool.and_eq_true, decide_eq_true_eq] at hcheck
  obtain ⟨delivered, delivered', hcheck⟩ := hcheck
  obtain ⟨⟨done, m'⟩, used, hcheck⟩ := (Option.any_eq_true _ _).1 hcheck
  obtain ⟨rfl, hcheck⟩ := Bool.and_eq_true_iff.1 hcheck
  obtain ⟨⟨done, n'⟩, used', rfl⟩ := (Option.any_eq_true _ _).1 hcheck
  rw [Machine.outcome_eq_some] at taken taken' used used'
  have passes : Machine.Passes _ m := (Machine.Reaches.refl.serve hserved).passes m.held
  have passes' : Machine.Passes _ n := (Machine.Reaches.refl.serve hserved').passes n.held
  have reads {m : Machine} {kind : PageKind} (plain : kind.program? = none)
      (delivered : (m.finds kind).delivered = some #[1, 2, 3]) :
      m.finds kind = ⟨some #[1, 2, 3], none⟩ := by
    rw [← delivered, Machine.finds, plain]
    rfl
  have finds := reads plain delivered
  have finds' := reads plain' delivered'
  have same := finds.trans finds'.symm
  obtain ⟨blank, first⟩ := first_contents_independent passes passes'
  obtain ⟨held, held'⟩ := first _ _ page page' _ _ id id' found found' unused unused' .claimed
    (.accessed false) used used' taken taken' same
  refine ⟨m, n, m₁, n₁, m', n', page, page', id, id', passes, passes', found, found', unused, unused',
    taken, taken', same, used, used', blank id m₁ taken, ?_, held'⟩
  rw [held, finds]
  rfl

end DemandPaging
