import DemandPaging.Proofs.Runs

namespace DemandPaging

open DemandPaging.Core

/-- What page tables, pages and frames have to do with each other. -/
structure Machine.MappingsSafe (m : Machine) : Prop where
  /-- An entry belongs to a resident page of its space and leads to the page's frame. -/
  resident : ∀ ref entry, m.mappings.find? ref = some entry → ∃ page id frame,
    m.pages.find? ref = some page ∧ page.frame = some id ∧ m.frames.find? id = some frame ∧
      entry.page = frame.page
  entered : ∀ ref page id, m.pages.find? ref = some page → page.frame = some id →
    ∃ entry, m.mappings.find? ref = some entry
  writable : ∀ ref entry, m.mappings.find? ref = some entry → entry.writable = true →
    ∃ page id, m.pages.find? ref = some page ∧ page.writable = true ∧ page.frame = some id ∧
      ∀ other page', m.pages.find? other = some page' → page'.frame = some id → other = ref
  /-- No entry leads to a page of memory that was given back. -/
  taken : ∀ ref entry, m.mappings.find? ref = some entry → m.memory.pool.count entry.page = 0
  /-- Entries lead to the same page of memory only where pages share a frame. -/
  shared : ∀ ref other entry entry', m.mappings.find? ref = some entry →
    m.mappings.find? other = some entry' → entry.page = entry'.page → ∃ page page' id,
      m.pages.find? ref = some page ∧ m.pages.find? other = some page' ∧
        page.frame = some id ∧ page'.frame = some id

variable {m : Machine}

theorem Machine.Settled.mappingsSafe (h : m.Settled) : m.MappingsSafe := by
  obtain ⟨hs, hg⟩ := h
  have resident : ∀ ref entry, m.mappings.find? ref = some entry → ∃ page id frame,
      m.pages.find? ref = some page ∧ page.frame = some id ∧ m.frames.find? id = some frame ∧
        frame.page = entry.page ∧ (entry.writable = true → page.writable = true) := hs.mapped
  constructor
  case resident =>
    intro ref entry hentry
    obtain ⟨page, id, frame, hpage, hid, hframe, hphys, -⟩ := resident ref entry hentry
    exact ⟨page, id, frame, hpage, hid, hframe, hphys.symm⟩
  case entered =>
    intro ref page id hpage hid
    exact hg.entered ref page id hpage hid (fun h => h)
  case writable =>
    intro ref entry hentry hw
    obtain ⟨page, id, frame, hpage, hid, hframe, -, hwritable⟩ := resident ref entry hentry
    refine ⟨page, id, hpage, hwritable hw, hid, fun other page' hother hid' => ?_⟩
    have howner := hs.owner hother hid' hframe
    exact (hg.exclusive ref entry page id frame hentry hw hpage hid hframe other howner).resolve_right
      (fun h => h)
  case taken =>
    intro ref entry hentry
    obtain ⟨page, id, frame, -, -, hframe, hphys, -⟩ := resident ref entry hentry
    exact hphys ▸ hs.pooled.busy id frame hframe
  case shared =>
    intro ref other entry entry' hentry hentry' heq
    obtain ⟨page, id, frame, hpage, hid, hframe, hphys, -⟩ := resident ref entry hentry
    obtain ⟨page', id', frame', hpage', hid', hframe', hphys', -⟩ := resident other entry' hentry'
    have hsame : id = id' :=
      hs.pooled.inj id id' frame frame' hframe hframe' (by rw [hphys, hphys', heq])
    exact ⟨page, page', id, hpage, hpage', hid, hsame ▸ hid'⟩

/-- However long the pager runs, whatever its page tables refuse and whatever others do to the files
and hold locked, the entries are safe after every turn. -/
theorem mappings_safe {frames : Nat} {sectors : Option Nat} {files : List File}
    {allocator : Allocator} {log : List Exchange}
    (run : Run (fun _ => Operation.Proper) (.fresh frames sectors files allocator) log m) :
    m.MappingsSafe :=
  (run.settled (fun _ _ h => h) (Machine.fresh_settled frames sectors files allocator)).mappingsSafe

/-- A page is written to, shared with a copy of its space, and lost when the page table refuses the
entry of its own copy. -/
theorem mappings_safe_after_refusal : ∃ log m,
    Run (fun _ => Operation.Proper) (.fresh 2 none []) log m ∧ m.mappings.size = 1 ∧ m.MappingsSafe := by
  have played : ((Machine.fresh 2 none []).serve [.declare 0 (.ofBits 4096) true .anon none,
      .write 0 (.ofBits 4096) #[1, 2] (.ofBits 0), .fork 0 1 .asStored,
      .setInstalls 0 (.budget (some 0)), .write 0 (.ofBits 4096) #[3] (.ofBits 0)]).any
        (fun r => r.2.mappings.size == 1) = true := by decide +kernel
  obtain ⟨⟨log, m⟩, hserved, hsize⟩ := (Option.any_eq_true _ _).1 played
  have run : Run (fun _ => Operation.Proper) _ _ m := .serve .nil (by simp [Operation.Proper]) hserved
  exact ⟨_, m, run, beq_iff_eq.1 hsize, mappings_safe run⟩

end DemandPaging
