import DemandPaging.Proofs.Upkeep
import Mathlib.Data.List.Dedup

namespace DemandPaging

open DemandPaging.Core

namespace Machine

/-- The frames of all pages of all spaces, once for each page. -/
def heldFrames (m : Machine) : List FrameId := m.pages.rows.filterMap fun row => row.2.frame

structure Exact (n : Nat) (m : Machine) : Prop where
  /-- A frame has owners, each of them once, and they are the pages that are in it. -/
  owned : ∀ id frame, m.frames.find? id = some frame → frame.owners ≠ [] ∧ frame.owners.Nodup ∧
    ∀ ref, ref ∈ frame.owners ↔ ∃ page, m.pages.find? ref = some page ∧ page.frame = some id
  /-- No page is in a frame that is not there. -/
  housed : ∀ ref page id, m.pages.find? ref = some page → page.frame = some id →
    ∃ frame, m.frames.find? id = some frame
  /-- Two frames are never in one page of memory, and none is in a free one. -/
  apart : ∀ id id' frame frame', m.frames.find? id = some frame → m.frames.find? id' = some frame' →
    frame.page = frame'.page → id = id'
  busy : ∀ id frame, m.frames.find? id = some frame → frame.page ∉ m.memory.pool.handsOut
  all : m.stats.residentFrames + m.memory.pool.handsOut.length = n
  /-- A slot in use is held by one page. -/
  slotted : ∀ slot, m.swap.holds slot = true →
    ∃! ref, ∃ page, m.pages.find? ref = some page ∧ page.kind.slot? = some slot
  /-- A slot that a page holds is in use, and the page is an anonymous one that is not in memory. -/
  stored : ∀ ref page slot, m.pages.find? ref = some page → page.kind.slot? = some slot →
    m.swap.holds slot = true ∧ page.kind = .anon (some slot) ∧ page.frame = none
  resident : m.stats.residentFrames = m.heldFrames.dedup.length
  shared : m.stats.sharedFrames = m.heldFrames.dedup.countP fun id => 2 ≤ m.heldFrames.count id
  swapped : m.stats.swapUsed = m.pages.rows.countP fun row => row.2.kind.slot?.isSome

end Machine

variable {n : Nat} {loan : HandleCount} {m : Machine} {id : FrameId} {frame : Frame}

theorem Table.total_countP {κ α : Type} [DecidableEq κ] (t : Table κ α) (p : α → Bool) :
    t.total (fun a => if p a then 1 else 0) = t.rows.countP fun row => p row.2 := by
  unfold Table.total
  induction t.rows with
  | nil => rfl
  | cons row rest ih =>
      rw [List.map_cons, List.sum_cons, ih, List.countP_cons, add_comm]

theorem Core.Sound.mem_owners (h : m.core.Sound) (found : m.frames.find? id = some frame)
    (ref : PageRef) :
    ref ∈ frame.owners ↔ ∃ page, m.pages.find? ref = some page ∧ page.frame = some id := by
  constructor
  · exact h.owned.page_of id frame ref found
  · rintro ⟨page, hpage, hframe⟩
    exact h.owner hpage hframe found

namespace Machine.Tidy

theorem count_heldFrames (h : m.Tidy n loan) (found : m.frames.find? id = some frame) :
    m.heldFrames.count id = frame.owners.length := by
  have hcount : m.heldFrames.count id =
      ((m.pages.rows.filter fun row => row.2.frame = some id).map Prod.fst).length := by
    rw [List.length_map, ← List.countP_eq_length_filter, heldFrames, List.count, List.countP_filterMap]
    refine List.countP_congr fun row _ => ?_
    cases row.2.frame <;> simp
  have hperm : ((m.pages.rows.filter fun row => row.2.frame = some id).map Prod.fst).Perm
      frame.owners := by
    refine (List.perm_ext_iff_of_nodup ?_ (h.sound.owned.nodup id frame found)).2 fun ref => ?_
    · exact m.pages.nodup.sublist (List.filter_sublist.map Prod.fst)
    · rw [h.sound.mem_owners found]
      simp only [List.mem_map, List.mem_filter, decide_eq_true_eq, Prod.exists, exists_and_right,
        exists_eq_right, Table.find?_eq_some]
  rw [hcount, hperm.length_eq]

theorem mem_heldFrames (h : m.Tidy n loan) : id ∈ m.heldFrames ↔ id ∈ m.frames.entries.keys := by
  rw [Table.mem_keys, Option.isSome_iff_exists]
  constructor
  · intro hid
    obtain ⟨⟨ref, page⟩, hrow, hframe⟩ := List.mem_filterMap.1 hid
    obtain ⟨frame, hfound, -⟩ := h.sound.owned.frame_of ref page id (Table.find?_eq_some.2 hrow) hframe
    exact ⟨frame, hfound⟩
  · rintro ⟨frame, found⟩
    refine List.count_pos_iff.1 ?_
    rw [h.count_heldFrames found]
    exact List.length_pos_iff.2 (h.busy id frame found)

theorem heldFrames_perm (h : m.Tidy n loan) : m.heldFrames.dedup.Perm m.frames.entries.keys :=
  (List.perm_ext_iff_of_nodup (List.nodup_dedup _) m.frames.entries.nodup_keys).2 fun id => by
    rw [List.mem_dedup, h.mem_heldFrames]

theorem shared_count (h : m.Tidy n loan) :
    m.frames.shared = m.heldFrames.dedup.countP fun id => 2 ≤ m.heldFrames.count id := by
  rw [h.heldFrames_perm.countP_eq, Table.keys, List.countP_map, FrameTable.shared]
  refine List.countP_congr fun row hrow => ?_
  rw [Function.comp_apply, h.count_heldFrames (Table.find?_eq_some.2 hrow)]
  simp only [decide_eq_true_eq]
  exact Iff.rfl

theorem exact (h : m.Tidy n loan) : m.Exact n where
  owned id frame found := ⟨h.busy id frame found, h.sound.owned.nodup id frame found,
    h.sound.mem_owners found⟩
  housed ref page id found hframe :=
    have ⟨frame, owned, _⟩ := h.sound.owned.frame_of ref page id found hframe
    ⟨frame, owned⟩
  apart := h.sound.pooled.inj
  busy id frame found := by
    refine List.count_eq_zero.1 ((Pool.count_handsOut _ _).trans ?_)
    exact h.sound.pooled.busy id frame found
  all := by
    rw [Pool.length_handsOut, Nat.add_comm]
    exact h.accounted.stocked.all
  slotted slot held := by
    obtain ⟨ref, page, found, hslot⟩ := h.accounted.stored.kept slot held
    refine ⟨ref, ⟨page, found, hslot⟩, ?_⟩
    rintro ref' ⟨page', found', hslot'⟩
    exact h.sound.slotted.inj ref' ref page' page slot found' found (PageKind.slot?_eq_some.1 hslot')
      (PageKind.slot?_eq_some.1 hslot)
  stored ref page slot found hslot := by
    have hkind := PageKind.slot?_eq_some.1 hslot
    obtain ⟨held, away, -⟩ := h.sound.slotted.held ref page slot found hkind
    exact ⟨held, hkind, away⟩
  resident := by
    rw [h.heldFrames_perm.length_eq, Table.keys, List.length_map]
    rfl
  shared := h.shared_count
  swapped :=
    h.accounted.stored.used.trans (m.pages.total_countP fun page => page.kind.slot?.isSome)

end Machine.Tidy

/-- After any requests, refused and failed ones among them, every frame and every slot is owned by
those who hold it, no page of memory is lost, and the statistics are those of a recount. -/
theorem ownership_exact {sectors : Option Nat} {files : List File} {allocator : Allocator}
    (reached : (Machine.fresh n sectors files allocator).Reaches m) : m.Exact n :=
  (reached.tidy (Machine.fresh_tidy n sectors files allocator)).exact

/-- Two pages of a space are shared with its copy, a third is in memory and a fourth in the swap
area. -/
theorem ownership_exact_after_copy : ∃ m, (Machine.fresh 3 (some 16) []).Reaches m ∧
    m.stats = ⟨3, 2, 1, 2⟩ ∧ m.Exact 3 := by
  have played : ((Machine.fresh 3 (some 16) []).serve [.declare 0 (.ofBits 4096) true .anon none,
      .declare 0 (.ofBits 8192) true .anon none, .claim 0 (.ofBits 4096), .claim 0 (.ofBits 8192),
      .newSpace, .fork 0 1 .asStored, .declare 0 (.ofBits 12288) true .anon none,
      .declare 0 (.ofBits 16384) true .anon none, .claim 0 (.ofBits 12288),
      .claim 0 (.ofBits 16384)]).any (fun r => r.2.stats == ⟨3, 2, 1, 2⟩) = true := by decide +kernel
  obtain ⟨⟨log, m⟩, hserved, hstats⟩ := (Option.any_eq_true _ _).1 played
  have reached := Machine.Reaches.refl.serve hserved
  exact ⟨m, reached, beq_iff_eq.1 hstats, ownership_exact reached⟩

end DemandPaging
