import DemandPaging.Proofs.FreePages
import DemandPaging.Proofs.Ownership
import DemandPaging.Proofs.SwapSlots

namespace DemandPaging

open Function (update)

structure Slotted (pages : PageRef → Option Page) (swap : SwapArea) : Prop where
  backed : swap.Backed
  held : ∀ ref page slot, pages ref = some page → page.kind = .anon (some slot) →
    swap.holds slot = true ∧ page.frame = none ∧ swap.disk ≠ none
  inj : ∀ ref ref' page page' slot, pages ref = some page → pages ref' = some page' →
    page.kind = .anon (some slot) → page'.kind = .anon (some slot) → ref = ref'

structure Pooled (frames : FrameId → Option Frame) (memory : Memory) : Prop where
  once : ∀ phys, memory.pool.count phys ≤ 1
  busy : ∀ id frame, frames id = some frame → memory.pool.count frame.page = 0
  inj : ∀ id id' frame frame', frames id = some frame → frames id' = some frame' →
    frame.page = frame'.page → id = id'
  clear : ∀ id phys, frames id = some ⟨phys, []⟩ → memory.read phys = PageBytes.zero

variable {pages : PageRef → Option Page} {frames : FrameId → Option Frame} {ref : PageRef}
  {page page' : Page} {id : FrameId} {frame frame' : Frame} {phys : PhysPage}
  {swap taken swap' : SwapArea} {slot : SwapSlot} {memory memory' : Memory} {bytes : PageBytes}

namespace Slotted

theorem replace (h : Slotted pages swap) {new : Option Page}
    (hnew : ∀ page', new = some page' → ∀ slot, page'.kind = .anon (some slot) →
      page'.frame = none ∧ ∃ page, pages ref = some page ∧ page.kind = page'.kind) :
    Slotted (update pages ref new) swap := by
  constructor
  · exact h.backed
  · grind [Slotted, Function.update_apply]
  · grind [Slotted, Function.update_apply]

theorem store (h : Slotted pages swap) (free : swap.allocSlot? = some (slot, taken))
    (stored : taken.writeSlot slot bytes = .ok swap') (kind : page.kind = .anon (some slot))
    (away : page.frame = none) : Slotted (update pages ref (some page)) swap' := by
  obtain ⟨hfree, htaken, hlt, hdisk, hslots⟩ := SwapArea.allocSlot?_some free
  have hd : taken.disk ≠ none := by
    rw [hdisk]
    intro hn
    rw [h.backed hn] at hlt
    exact nomatch hlt
  obtain ⟨-, -, hmap, -, hd'⟩ := SwapArea.writeSlot_ok hd stored
  have hholds (other : SwapSlot) : swap'.holds other = taken.holds other := by
    simp only [SwapArea.holds, hmap]
  constructor
  · exact fun hn => (hd' hn).elim
  · grind [Slotted, Function.update_apply]
  · grind [Slotted, Function.update_apply]

theorem free (h : Slotted pages swap) (found : pages ref = some page)
    (kind : page.kind = .anon (some slot)) (freed : swap.freeSlot slot = .ok swap')
    {new : Option Page} (hnew : ∀ page', new = some page' → ∀ slot, page'.kind ≠ .anon (some slot)) :
    Slotted (update pages ref new) swap' := by
  obtain ⟨-, hfree, hdisk, hslots⟩ := SwapArea.freeSlot_ok freed
  constructor
  · intro hn
    rw [hslots]
    exact h.backed (hdisk ▸ hn)
  · grind [Slotted, Function.update_apply]
  · grind [Slotted, Function.update_apply]

end Slotted

namespace Pooled

theorem acquire_ne (h : Pooled frames memory) (taken : memory.acquire? = some (phys, memory'))
    (found : frames id = some frame) : frame.page ≠ phys := by
  unfold Memory.acquire? at taken
  split at taken
  · next b pool ht =>
      cases taken
      have hcount := Pool.count_take ht phys
      have hbusy := h.busy id frame found
      rintro rfl
      rw [if_pos rfl] at hcount
      omega
  · exact nomatch taken

theorem acquire_read (h : Pooled frames memory) (taken : memory.acquire? = some (phys, memory'))
    (found : frames id = some frame) : memory'.read frame.page = memory.read frame.page := by
  have hne := h.acquire_ne taken found
  unfold Memory.acquire? at taken
  split at taken
  · cases taken
    rw [Memory.read_write, if_neg (Ne.symm hne)]
    rfl
  · exact nomatch taken

theorem acquire (h : Pooled frames memory) (taken : memory.acquire? = some (phys, memory')) :
    Pooled (update frames id (some ⟨phys, []⟩)) memory' := by
  have hread := Memory.read_acquire taken
  have hne (i : FrameId) (f : Frame) (hf : frames i = some f) := h.acquire_ne taken hf
  have hkept (i : FrameId) (f : Frame) (hf : frames i = some f) := h.acquire_read taken hf
  unfold Memory.acquire? at taken
  split at taken
  · next b pool ht =>
      cases taken
      have hcount := Pool.count_take ht
      constructor
      case once =>
        intro p
        have h₁ := hcount p
        have h₂ := h.once p
        change pool.count p ≤ 1
        omega
      case busy =>
        intro i f hf
        have h₁ := hcount f.page
        have h₂ := h.busy i f
        have h₃ := h.once phys
        change pool.count f.page = 0
        grind [Function.update_apply]
      case inj => grind [Pooled, Function.update_apply]
      case clear =>
        intro i p hf
        by_cases hi : i = id
        · subst hi
          rw [Function.update_self] at hf
          cases hf
          exact hread
        · rw [Function.update_of_ne hi] at hf
          exact (hkept i _ hf).trans (h.clear i p hf)
  · exact nomatch taken

theorem release (h : Pooled frames memory) (found : frames id = some frame)
    (same : memory'.pool = memory.pool)
    (hread : ∀ p, p ≠ frame.page → memory'.read p = memory.read p) :
    Pooled (update frames id none) (memory'.release frame.page) := by
  have hcount := memory.pool.count_give frame.page
  have hbusy := h.busy id frame found
  have hpool : (memory'.release frame.page).pool = memory.pool.give frame.page := by
    rw [← same]
    rfl
  constructor
  case once =>
    intro p
    have h₁ := hcount p
    have h₂ := h.once p
    rw [hpool]
    grind
  case busy =>
    intro i f hf
    have h₁ := hcount f.page
    rw [hpool]
    grind [Pooled, Function.update_apply]
  case inj => grind [Pooled, Function.update_apply]
  case clear =>
    intro i p hf
    refine (hread p ?_).trans (h.clear i p ?_)
    · grind [Pooled, Function.update_apply]
    · grind [Function.update_apply]

theorem store (h : Pooled frames memory) (found : frames id = some frame)
    (same : frame'.page = frame.page) (empty : frame'.owners = [] → bytes = PageBytes.zero) :
    Pooled (update frames id (some frame')) (memory.write frame.page bytes) := by
  constructor
  case once => exact h.once
  case busy =>
    intro i f hf
    change memory.pool.count f.page = 0
    grind [Pooled, Function.update_apply]
  case inj => grind [Pooled, Function.update_apply]
  case clear =>
    intro i p hf
    rw [Memory.read_write]
    grind [Pooled, Function.update_apply]

theorem setOwners (h : Pooled frames memory) (found : frames id = some frame)
    (same : frame'.page = frame.page) (used : frame'.owners ≠ []) :
    Pooled (update frames id (some frame')) memory := by
  constructor
  case once => exact h.once
  case busy => grind [Pooled, Function.update_apply]
  case inj => grind [Pooled, Function.update_apply]
  case clear => grind [Pooled, Function.update_apply]

end Pooled

namespace Core

structure Sound (c : Core) : Prop where
  owned : Owned c.pages.find? c.frames.find?
  mapped : Mapped c.pages.find? c.frames.find? c.mappings.find?
  slotted : Slotted c.pages.find? c.swap
  pooled : Pooled c.frames.find? c.memory
  table : c.frames.WellFormed
  programs : ∀ id, c.programCount ≤ id → c.programs id = none

variable {c c' c₁ : Core} {kind kind' : PageKind} {deeds : List Deed} {entry : PageRef}
  {bytes' : PageBytes}

theorem Produces.core_eq {init : Initializer} {r : PageBytes × Bool} (h : Produces c bytes init r c₁) :
    ∃ programs, c₁ = { c with programs } ∧ ∀ id, c.programs id = none → programs id = none := by
  cases h with
  | segment => exact ⟨c.programs, rfl, fun _ => id⟩
  | @program i routine found =>
      refine ⟨_, rfl, fun id hn => ?_⟩
      have hi : id ≠ i := by
        rintro rfl
        rw [found] at hn
        exact nomatch hn
      rw [Function.update_of_ne hi]
      exact hn
  | missing => exact ⟨c.programs, rfl, fun _ => id⟩
  | alwaysFail => exact ⟨c.programs, rfl, fun _ => id⟩

theorem Fills.core_eq (h : Fills c ref bytes kind kind' bytes' c₁ deeds) :
    ∃ swap programs, c₁ = { c with swap, programs } ∧
      ∀ id, c.programs id = none → programs id = none := by
  cases h with
  | made made =>
      obtain ⟨programs, hc, hp⟩ := made.core_eq
      exact ⟨c.swap, programs, hc, hp⟩
  | slot => exact ⟨_, c.programs, rfl, fun _ => id⟩
  | _ => exact ⟨c.swap, c.programs, rfl, fun _ => id⟩

theorem Fills.used (h : Fills c ref bytes kind kind' bytes' c₁ deeds) :
    kind'.isUninit = false ∧ ∀ slot, kind' ≠ .anon (some slot) := by
  cases h with
  | @made target => cases target <;> exact ⟨rfl, nofun⟩
  | _ => exact ⟨rfl, nofun⟩

theorem Fills.slotted (h : Fills c ref bytes kind kind' bytes' c₁ deeds) (hs : Slotted pages c.swap)
    (found : pages ref = some page) (old : page.kind = kind) (new : page'.kind = kind') :
    Slotted (update pages ref (some page')) c₁.swap := by
  have hused := h.used.2
  have plain : Slotted (update pages ref (some page')) c.swap := by
    refine hs.replace fun p hp slot hk => ?_
    cases hp
    exact (hused slot (new ▸ hk)).elim
  cases h with
  | slot stored freed =>
      refine hs.free found old freed fun p hp slot hk => ?_
      cases hp
      exact hused slot (new ▸ hk)
  | made made =>
      obtain ⟨programs, hc, -⟩ := made.core_eq
      rw [hc]
      exact plain
  | _ => exact plain

theorem Saves.core_eq (h : Saves c bytes entry kind kind' c₁) :
    ∃ swap files, c₁ = { c with swap, files } := by
  cases h with
  | anon => exact ⟨_, c.files, rfl⟩
  | clean => exact ⟨c.swap, c.files, rfl⟩
  | dirty => exact ⟨c.swap, _, rfl⟩

theorem Saves.used (h : Saves c bytes entry kind kind' c₁) : kind'.isUninit = false := by
  cases h <;> rfl

theorem Saves.slotted (h : Saves c bytes entry kind kind' c₁) (hs : Slotted pages c.swap)
    (new : page'.kind = kind') (away : page'.frame = none) :
    Slotted (update pages ref (some page')) c₁.swap := by
  have plain (hk : ∀ slot, kind' ≠ .anon (some slot)) :
      Slotted (update pages ref (some page')) c.swap := by
    refine hs.replace fun p hp slot hslot => ?_
    cases hp
    exact (hk slot (new ▸ hslot)).elim
  cases h with
  | anon free stored => exact hs.store free stored new away
  | clean => exact plain nofun
  | dirty => exact plain nofun

theorem Disposes.core_eq (h : Disposes c page entry c₁) :
    ∃ swap files, c₁ = { c with swap, files } := by
  cases h with
  | nothing => exact ⟨c.swap, c.files, rfl⟩
  | slot => exact ⟨_, c.files, rfl⟩
  | file => exact ⟨c.swap, _, rfl⟩

theorem Disposes.slotted (h : Disposes c page entry c₁) (hs : Slotted pages c.swap)
    (found : pages ref = some page) : Slotted (update pages ref none) c₁.swap := by
  cases h with
  | slot kind freed => exact hs.free found kind freed nofun
  | nothing => exact hs.replace nofun
  | file => exact hs.replace nofun

/-- What is left of a frame and of the memory when a page leaves. -/
inductive Leaves (frame : Frame) (ref : PageRef) (memory : Memory) :
    Option Frame → Memory → Prop where
  | others (used : frame.owners.filter (· ≠ ref) ≠ []) :
      Leaves frame ref memory (some { frame with owners := frame.owners.filter (· ≠ ref) }) memory
  | nobody (empty : (frame.owners.filter (· ≠ ref)).isEmpty = true) :
      Leaves frame ref memory none (memory.release frame.page)

theorem Leaves.left {memory memory' : Memory} {left : Option Frame}
    (h : Leaves frame ref memory left memory') :
    left = some { frame with owners := frame.owners.filter (· ≠ ref) } ∨
      left = none ∧ (frame.owners.filter (· ≠ ref)).isEmpty = true := by
  cases h with
  | others => exact .inl rfl
  | nobody empty => exact .inr ⟨rfl, empty⟩

theorem Leaves.subset {memory memory' : Memory} {left : Option Frame}
    (h : Leaves frame ref memory left memory') {frame' : Frame} (some_left : left = some frame') :
    ∀ r ∈ frame'.owners, r ∈ frame.owners := by
  intro r hr
  cases h with
  | others =>
      cases some_left
      exact (List.mem_filter.1 hr).1
  | nobody => exact nomatch some_left

theorem Leaves.pooled {memory memory' : Memory} {left : Option Frame}
    (h : Leaves frame ref memory left memory') (hp : Pooled frames memory)
    (found : frames id = some frame) : Pooled (update frames id left) memory' := by
  cases h with
  | others used => exact hp.setOwners found rfl used
  | nobody => exact hp.release found rfl fun _ _ => rfl

theorem Leaves.unwrite {memory memory' : Memory} {left : Option Frame}
    (h : Leaves frame ref (memory.write phys bytes) left memory') :
    ∃ memory₁, Leaves frame ref memory left memory₁ ∧ memory'.pool = memory₁.pool ∧
      ∀ p, p ≠ phys → memory'.read p = memory₁.read p := by
  have hread (p : PhysPage) (hp : p ≠ phys) : (memory.write phys bytes).read p = memory.read p := by
    rw [Memory.read_write, if_neg (Ne.symm hp)]
  cases h with
  | others used => exact ⟨memory, .others used, rfl, hread⟩
  | nobody empty => exact ⟨memory.release frame.page, .nobody empty, rfl, hread⟩

theorem disown_eq (c : Core) (id : FrameId) (frame : Frame) (ref : PageRef) :
    ∃ frames memory left, c.disown id frame ref = { c with frames, memory } ∧
      frames.find? = update c.frames.find? id left ∧ Leaves frame ref c.memory left memory ∧
      (c.frames.WellFormed → c.frames.find? id = some frame → frames.WellFormed) := by
  unfold disown
  split
  · next he =>
      exact ⟨_, _, none, rfl, FrameTable.find?_remove_eq _ _, .nobody he, fun ht hf => ht.remove hf⟩
  · next he =>
      refine ⟨_, c.memory, _, rfl, FrameTable.find?_update_eq _ _ _, .others ?_, fun ht hf =>
        ht.update hf _⟩
      exact fun hn => he (List.isEmpty_iff.2 hn)

theorem disown_find?_of_ne {new : FrameId} (hne : new ≠ id) :
    (c.disown id frame ref).frames.find? new = c.frames.find? new := by
  obtain ⟨_, _, left, heq, hframes, -⟩ := disown_eq c id frame ref
  rw [heq]
  exact (congrFun hframes new).trans (Function.update_of_ne hne _ _)

theorem diverge_eq (c : Core) (ref : PageRef) (old : FrameId) (shared : Frame) (phys : PhysPage) :
    ∃ frames memory left, c.diverge ref old shared phys = { c with frames, memory } ∧
      frames.find? = update c.frames.find? old left ∧
      Leaves shared ref (c.memory.write phys (c.memory.read shared.page)) left memory ∧
      (c.frames.WellFormed → c.frames.find? old = some shared → frames.WellFormed) :=
  disown_eq (c.write phys (c.memory.read shared.page)) old shared ref

theorem ne_of_found {src dst : PageRef} (found : c.pages.find? src = some page)
    (vacant : c.pages.find? dst = none) : dst ≠ src := by
  rintro rfl
  rw [vacant] at found
  exact nomatch found

theorem share_find {src dst : PageRef} (hne : dst ≠ src) :
    (c.share src dst page id frame).pages.find? src = some { page with cow := true } ∧
      (c.share src dst page id frame).pages.find? dst =
        some ⟨dst.space, page.writable, some id, page.lastAccess, true, page.kind.twin⟩ ∧
      (c.share src dst page id frame).frames.find? id =
        some { frame with owners := frame.owners ++ [dst] } := by
  refine ⟨?_, ?_, ?_⟩
  · exact Table.find?_insert_self
  · refine (Table.find?_insert_of_ne hne).trans ?_
    exact Table.find?_insert_self
  · exact FrameTable.find?_update_self

namespace Sound

theorem of_find {mappings : PageRef → Option Mapping} (hp : c.pages.find? = pages)
    (hf : c.frames.find? = frames) (hm : c.mappings.find? = mappings) (owned : Owned pages frames)
    (mapped : Mapped pages frames mappings) (slotted : Slotted pages c.swap)
    (pooled : Pooled frames c.memory) (table : c.frames.WellFormed)
    (programs : ∀ id, c.programCount ≤ id → c.programs id = none) : c.Sound := by
  subst hp hf hm
  exact ⟨owned, mapped, slotted, pooled, table, programs⟩

theorem stamp (h : c.Sound) (found : c.pages.find? ref = some page) : (c.stamp ref page).Sound := by
  refine of_find (Table.find?_insert_eq _ _ _) rfl rfl ?_ ?_ ?_ h.pooled h.table h.programs
  · exact h.owned.replace found rfl rfl (h.owned.unused ref page found)
      fun id frame hid hf hcow => h.owned.sole ref page id frame found hid hcow hf
  · exact h.mapped.replace found rfl rfl
  · refine h.slotted.replace fun p hp slot hk => ?_
    cases hp
    exact ⟨(h.slotted.held ref page slot found hk).2.1, page, found, rfl⟩

theorem learn (h : c.Sound) (routine : Routine) : Sound { c with
    programs := update c.programs c.programCount (some routine)
    programCount := c.programCount + 1 } := by
  refine ⟨h.owned, h.mapped, h.slotted, h.pooled, h.table, fun id hid => ?_⟩
  have hne : id ≠ c.programCount := by
    rintro rfl
    exact Nat.not_succ_le_self _ hid
  change update c.programs c.programCount _ id = none
  rw [Function.update_of_ne hne]
  exact h.programs id (Nat.le_of_succ_le hid)

theorem add (h : c.Sound) {writable : Bool} (vacant : c.pages.find? ref = none)
    (no_slot : ∀ slot, kind ≠ .anon (some slot)) :
    (c.setPage ref (.fresh ref.space writable kind)).Sound := by
  have hold (p : Page) (hp : c.pages.find? ref = some p) : p.frame = none := by
    rw [vacant] at hp
    exact nomatch hp
  refine of_find (Table.find?_insert_eq _ _ _) rfl rfl ?_ (h.mapped.away hold) ?_ h.pooled h.table
    h.programs
  · refine h.owned.away hold fun p hp => ?_
    cases hp
    exact ⟨rfl, rfl⟩
  · refine h.slotted.replace fun p hp slot hk => ?_
    cases hp
    exact (no_slot slot hk).elim

theorem add_frame (h : c.Sound) (frame : Frame) :
    (c.frames.add frame).2.WellFormed ∧ c.frames.find? (c.frames.add frame).1 = none ∧
      (c.frames.add frame).2.find? = update c.frames.find? (c.frames.add frame).1 (some frame) ∧
      ∀ r page, c.pages.find? r = some page → page.frame ≠ some (c.frames.add frame).1 := by
  obtain ⟨htable, hnew, hfind⟩ := h.table.add frame
  refine ⟨htable, hnew, ?_, fun r p hp hid => ?_⟩
  · funext id
    rw [hfind, Function.update_apply]
    simp only [eq_comm]
  · obtain ⟨f, hf, -⟩ := h.owned.frame_of r p _ hp hid
    rw [hnew] at hf
    exact nomatch hf

theorem acquire (h : c.Sound) {memory : Memory} (taken : c.memory.acquire? = some (phys, memory)) :
    Sound { c with memory, frames := (c.frames.add ⟨phys, []⟩).2 } := by
  obtain ⟨htable, hnew, hfind, hunknown⟩ := h.add_frame ⟨phys, []⟩
  exact of_find rfl hfind rfl (h.owned.acquire hnew) (h.mapped.setFrame hunknown) h.slotted
    (h.pooled.acquire taken) htable h.programs

theorem victim (h : c.Sound) (found : c.pages.find? ref = some page)
    (owned : c.frames.find? id = some ⟨phys, [ref]⟩) : page.frame = some id := by
  obtain ⟨p, hp, hid⟩ := h.owned.page_of id _ ref owned List.mem_cons_self
  rw [found] at hp
  cases hp
  exact hid

theorem owner (h : c.Sound) (found : c.pages.find? ref = some page) (resident : page.frame = some id)
    (owned : c.frames.find? id = some frame) : ref ∈ frame.owners := by
  obtain ⟨f, hf, hr⟩ := h.owned.frame_of ref page id found resident
  rw [owned] at hf
  cases hf
  exact hr

theorem many_of_shared {other : PageRef} {page' : Page} (h : c.Sound)
    (found : c.pages.find? ref = some page) (resident : page.frame = some id)
    (owned : c.frames.find? id = some frame) (apart : other ≠ ref)
    (found' : c.pages.find? other = some page') (shared : page'.frame = some id) :
    frame.owners.length ≠ 1 := by
  intro hone
  obtain ⟨r, hr⟩ := List.length_eq_one_iff.1 hone
  have href := h.owner found resident owned
  have hother := h.owner found' shared owned
  rw [hr, List.mem_singleton] at href hother
  exact apart (hother.trans href.symm)

theorem cow_of_many (h : c.Sound) (found : c.pages.find? ref = some page)
    (resident : page.frame = some id) (owned : c.frames.find? id = some frame)
    (many : frame.owners.length ≠ 1) : page.cow = true := by
  rw [← Bool.not_eq_false]
  intro hcow
  rw [h.owned.sole ref page id frame found resident hcow owned] at many
  exact many rfl

theorem entryRef (h : c.Sound) (found : c.pages.find? ref = some page) : page.entryRef ref = ref := by
  rw [Page.entryRef, h.owned.home ref page found]

theorem filter_self : [ref].filter (· ≠ ref) = [] := by simp

theorem evict (h : c.Sound) (found : c.pages.find? ref = some page)
    (owned : c.frames.find? id = some ⟨phys, [ref]⟩)
    (saved : c.Saves (c.memory.read phys) (page.entryRef ref) page.kind kind c₁) :
    ((((c₁.unmap (page.entryRef ref)).setPage ref
      { page with kind, frame := none, cow := false }).setFrame id ⟨phys, []⟩).write phys
        PageBytes.zero).Sound := by
  have hslotted : Slotted (update c.pages.find? ref
      (some { page with kind, frame := none, cow := false })) c₁.swap :=
    saved.slotted h.slotted rfl rfl
  obtain ⟨swap, files, rfl⟩ := saved.core_eq
  rw [h.entryRef found]
  have hleft : some (⟨phys, []⟩ : Frame) = some { page := phys, owners := [ref].filter (· ≠ ref) } := by
    rw [filter_self]
  refine of_find (Table.find?_insert_eq _ _ _) (FrameTable.find?_update_eq _ _ _)
    (Table.find?_erase_eq _ _) ?_ (h.mapped.detach h.owned owned (.inl hleft)) hslotted
    (h.pooled.store owned rfl fun _ => rfl) (h.table.update owned _) h.programs
  refine h.owned.detach found (h.victim found owned) owned (fun p hp => ?_) (.inl hleft)
  cases hp
  exact ⟨h.owned.home ref page found, rfl⟩

theorem fill (h : c.Sound) (found : c.pages.find? ref = some page) (away : page.frame = none)
    (free : c.frames.find? id = some ⟨phys, []⟩)
    (filled : c.Fills ref (c.memory.read phys) page.kind kind bytes c₁ deeds) :
    ((((c₁.setFrame id ⟨phys, [ref]⟩).map (page.entryRef ref) ⟨phys, page.writable, false⟩).write phys
      bytes).stamp ref { page with frame := some id, cow := false, kind }).Sound := by
  have hslotted (now : Nat) : Slotted (update c.pages.find? ref
      (some { page with frame := some id, cow := false, kind, lastAccess := now })) c₁.swap :=
    filled.slotted h.slotted found rfl rfl
  have hused := filled.used.1
  obtain ⟨swap, programs, rfl, hprograms⟩ := filled.core_eq
  rw [h.entryRef found]
  refine of_find (Table.find?_insert_eq _ _ _) (FrameTable.find?_update_eq _ _ _)
    (Table.find?_insert_eq _ _ _) ?_ ?_ (hslotted _) (h.pooled.store free rfl nofun)
    (h.table.update free _) fun i hi => hprograms i (h.programs i hi)
  · exact h.owned.attach found away free rfl rfl hused
  · exact h.mapped.attach (h.owned.unowned free) rfl [ref] fun hw => hw

theorem giveBack (h : c.Sound) (free : c.frames.find? id = some ⟨phys, []⟩) {memory : Memory}
    (same : memory.pool = c.memory.pool) (hread : ∀ p, p ≠ phys → memory.read p = c.memory.read p) :
    (Core.giveBack { c with memory } id phys).Sound :=
  of_find rfl (FrameTable.find?_remove_eq _ _) rfl (h.owned.giveBack free)
    (h.mapped.setFrame (h.owned.unowned free)) h.slotted (h.pooled.release free same hread)
    (h.table.remove free) h.programs

theorem unmap (h : c.Sound) (entry : PageRef) : (c.unmap entry).Sound :=
  of_find rfl rfl (Table.find?_erase_eq _ _) h.owned h.mapped.unmap h.slotted h.pooled h.table
    h.programs

theorem setAway (h : c.Sound) (found : c.pages.find? ref = some page) (away : page.frame = none)
    (table : page'.table = page.table) (same : page'.frame = none)
    (kind : ∀ slot, page'.kind = .anon (some slot) → page.kind = page'.kind) :
    (c.setPage ref page').Sound := by
  have hold (p : Page) (hp : c.pages.find? ref = some p) : p.frame = none := by
    rw [found] at hp
    cases hp
    exact away
  refine of_find (Table.find?_insert_eq _ _ _) rfl rfl ?_ (h.mapped.away hold) ?_ h.pooled h.table
    h.programs
  · refine h.owned.away hold fun p hp => ?_
    cases hp
    exact ⟨table.trans (h.owned.home ref page found), same⟩
  · refine h.slotted.replace fun p hp slot hk => ?_
    cases hp
    exact ⟨same, page, found, kind slot hk⟩

theorem setPrograms (h : c.Sound) {programs : ProgramId → Option Routine}
    (hp : ∀ id, c.programs id = none → programs id = none) : Sound { c with programs } :=
  ⟨h.owned, h.mapped, h.slotted, h.pooled, h.table, fun id hid => hp id (h.programs id hid)⟩

theorem refuse (h : c.Sound) (found : c.pages.find? ref = some page) (away : page.frame = none)
    (free : c.frames.find? id = some ⟨phys, []⟩) :
    (((c.giveBack id phys).unmap (page.entryRef ref)).setPage ref
      { page with frame := none, cow := false }).Sound :=
  ((h.giveBack free rfl fun _ _ => rfl).unmap _).setAway found away rfl rfl fun _ _ => rfl

theorem fail (h : c.Sound) (found : c.pages.find? ref = some page) (away : page.frame = none)
    (free : c.frames.find? id = some ⟨phys, []⟩) {target : PageTarget} {init kept : Initializer}
    (made : c.Produces (c.memory.read phys) init (bytes, false) c₁) :
    ((((c₁.write phys bytes).giveBack id phys).unmap (page.entryRef ref)).setPage ref
      { page with frame := none, cow := false, kind := .uninit target (some kept) }).Sound := by
  obtain ⟨programs, rfl, hprograms⟩ := made.core_eq
  have hread (p : PhysPage) (hp : p ≠ phys) : (c.memory.write phys bytes).read p = c.memory.read p := by
    rw [Memory.read_write, if_neg (Ne.symm hp)]
  have hback : (Core.giveBack { c with programs, memory := c.memory.write phys bytes } id phys).Sound :=
    (h.setPrograms hprograms).giveBack free rfl hread
  exact (hback.unmap _).setAway found away rfl rfl fun _ hk => nomatch hk

theorem new_ne {new : FrameId} (h : c.Sound) (found : c.pages.find? ref = some page)
    (resident : page.frame = some id) (free : c.frames.find? new = some ⟨phys, []⟩) : new ≠ id := by
  rintro rfl
  exact h.owned.unowned free ref page found resident

theorem no_slot (h : c.Sound) (found : c.pages.find? ref = some page) (resident : page.frame = some id)
    (slot : SwapSlot) : page.kind ≠ .anon (some slot) := by
  intro hk
  have haway := (h.slotted.held ref page slot found hk).2.1
  rw [resident] at haway
  exact nomatch haway

theorem used (h : c.Sound) (found : c.pages.find? ref = some page) (resident : page.frame = some id) :
    page.kind.isUninit = false := by
  rw [← Bool.not_eq_true]
  intro hu
  rw [h.owned.unused ref page found hu] at resident
  exact nomatch resident

theorem parted {old new : FrameId} {shared : Frame} (h : c.Sound)
    (found : c.pages.find? ref = some page) (resident : page.frame = some old)
    (owned : c.frames.find? old = some shared) (free : c.frames.find? new = some ⟨phys, []⟩)
    (table : page'.table = page.table) (away : page'.frame = none) :
    ∃ frames memory left, c.diverge ref old shared phys = { c with frames, memory } ∧
      frames.find? = update c.frames.find? old left ∧ frames.WellFormed ∧
      frames.find? new = some ⟨phys, []⟩ ∧
      Leaves shared ref (c.memory.write phys (c.memory.read shared.page)) left memory ∧
      Owned (update c.pages.find? ref (some page')) frames.find? ∧
      Mapped (update c.pages.find? ref (some page')) frames.find? (update c.mappings.find? ref none) := by
  obtain ⟨frames, memory, left, heq, hframes, hleft, htable⟩ := c.diverge_eq ref old shared phys
  refine ⟨frames, memory, left, heq, hframes, htable h.table owned, ?_, hleft, ?_, ?_⟩
  · rw [hframes, Function.update_of_ne (h.new_ne found resident free)]
    exact free
  · rw [hframes]
    refine h.owned.detach found resident owned (fun p hp => ?_) hleft.left
    cases hp
    exact ⟨table.trans (h.owned.home ref page found), away⟩
  · rw [hframes]
    exact h.mapped.detach h.owned owned hleft.left

theorem slotted_resident (h : c.Sound) (found : c.pages.find? ref = some page)
    (resident : page.frame = some id) (same : page'.kind = page.kind) :
    Slotted (update c.pages.find? ref (some page')) c.swap := by
  refine h.slotted.replace fun p hp slot hk => ?_
  cases hp
  exact (h.no_slot found resident slot (same ▸ hk)).elim

theorem copy {old new : FrameId} {shared : Frame} (h : c.Sound)
    (found : c.pages.find? ref = some page) (resident : page.frame = some old)
    (owned : c.frames.find? old = some shared) (free : c.frames.find? new = some ⟨phys, []⟩) :
    ((((c.diverge ref old shared phys).setFrame new ⟨phys, [ref]⟩).map (page.entryRef ref)
      ⟨phys, page.writable, c.dirty (page.entryRef ref)⟩).setPage ref
        { page with frame := some new, cow := false }).Sound := by
  have hne : old ≠ new := (h.new_ne found resident free).symm
  have hused : page.kind.isUninit = false := h.used found resident
  obtain ⟨frames, memory, left, heq, hframes, htable, hfree, hleft, howned, hmapped⟩ :=
    h.parted found resident owned free (rfl : { page with frame := none }.table = page.table) rfl
  rw [h.entryRef found, heq]
  refine of_find (Table.find?_insert_eq _ _ _) (FrameTable.find?_update_eq _ _ _)
    (Table.find?_insert_eq _ _ _) ?_ ?_ (h.slotted_resident found resident rfl) ?_
    (htable.update hfree _) h.programs
  · have hattached : Owned (update (update c.pages.find? ref (some { page with frame := none })) ref
          (some { page with frame := some new, cow := false }))
        (update frames.find? new (some ⟨phys, [ref]⟩)) :=
      howned.attach (Function.update_self _ _ _) rfl hfree rfl rfl hused
    rwa [Function.update_idem] at hattached
  · have hattached : Mapped (update (update c.pages.find? ref (some { page with frame := none })) ref
          (some { page with frame := some new, cow := false }))
        (update frames.find? new (some ⟨phys, [ref]⟩))
        (update (update c.mappings.find? ref none) ref
          (some ⟨phys, page.writable, c.dirty ref⟩)) :=
      hmapped.attach (howned.unowned hfree) rfl [ref] fun hw => hw
    rwa [Function.update_idem, Function.update_idem] at hattached
  · -- The copy is made before the page leaves the old frame, so the memory is followed in that order.
    rw [hframes, Function.update_comm hne]
    have hstored : Pooled (update c.frames.find? new (some ⟨phys, [ref]⟩))
        (c.memory.write phys (c.memory.read shared.page)) := h.pooled.store free rfl nofun
    exact hleft.pooled hstored ((Function.update_of_ne hne _ _).trans owned)

theorem lose {old new : FrameId} {shared : Frame} (h : c.Sound)
    (found : c.pages.find? ref = some page) (resident : page.frame = some old)
    (owned : c.frames.find? old = some shared) (free : c.frames.find? new = some ⟨phys, []⟩) :
    ((((c.diverge ref old shared phys).giveBack new phys).unmap (page.entryRef ref)).setPage ref
      { page with frame := none, cow := false }).Sound := by
  obtain ⟨frames, memory, left, heq, hframes, htable, hfree, hleft, howned, hmapped⟩ :=
    h.parted found resident owned free
      (rfl : { page with frame := none, cow := false }.table = page.table) rfl
  rw [h.entryRef found, heq]
  refine of_find (Table.find?_insert_eq _ _ _) (FrameTable.find?_remove_eq _ _)
    (Table.find?_erase_eq _ _) (howned.giveBack hfree) (hmapped.setFrame (howned.unowned hfree))
    (h.slotted_resident found resident rfl) ?_ (htable.remove hfree) h.programs
  -- what was written to the new frame goes with it
  obtain ⟨memory₁, hleft₁, hpool, hread⟩ := hleft.unwrite
  have hreleased : Pooled frames.find? memory₁ := hframes ▸ hleft₁.pooled h.pooled owned
  exact hreleased.release hfree hpool hread

theorem setResident (h : c.Sound) (found : c.pages.find? ref = some page)
    (resident : page.frame = some id) (cow : page'.cow = false → ∀ frame,
      c.frames.find? id = some frame → frame.owners = [ref])
    (same : page' = { page with cow := page'.cow }) : (c.setPage ref page').Sound := by
  have hkind : page'.kind = page.kind := by rw [same]
  have hframe : page'.frame = page.frame := by rw [same]
  refine of_find (Table.find?_insert_eq _ _ _) rfl rfl ?_ (h.mapped.replace found hframe (by rw [same]))
    (h.slotted_resident found resident hkind) h.pooled h.table h.programs
  refine h.owned.replace found (by rw [same]) hframe (fun hu => ?_) fun i f hi hf hcow => ?_
  · rw [hkind, h.used found resident] at hu
    exact nomatch hu
  · rw [resident] at hi
    cases hi
    exact cow hcow f hf

theorem own (h : c.Sound) (found : c.pages.find? ref = some page) (resident : page.frame = some id)
    (owned : c.frames.find? id = some frame) (sole : frame.owners.length = 1) :
    (c.setPage ref { page with cow := false }).Sound := by
  have hr := h.owner found resident owned
  obtain ⟨r, hone⟩ := List.length_eq_one_iff.1 sole
  rw [hone] at hr
  refine h.setResident found resident (fun _ f hf => ?_) rfl
  rw [owned] at hf
  cases hf
  rw [hone, List.mem_singleton.1 hr]

theorem map (h : c.Sound) (found : c.pages.find? ref = some page) (resident : page.frame = some id)
    (owned : c.frames.find? id = some frame) {writable dirty : Bool}
    (allowed : writable = true → page.writable = true) :
    (c.map ref ⟨frame.page, writable, dirty⟩).Sound :=
  of_find rfl rfl (Table.find?_insert_eq _ _ _) h.owned (h.mapped.map found resident owned allowed)
    h.slotted h.pooled h.table h.programs

theorem share (h : c.Sound) {dst : PageRef} (found : c.pages.find? ref = some page)
    (vacant : c.pages.find? dst = none) (resident : page.frame = some id)
    (owned : c.frames.find? id = some frame) : (c.share ref dst page id frame).Sound := by
  have hne := ne_of_found found vacant
  have hused := h.used found resident
  have htwin : page.kind.twin.isUninit = false ∧ ∀ slot, page.kind.twin ≠ .anon (some slot) := by
    cases hk : page.kind with
    | uninit => rw [hk] at hused; exact nomatch hused
    | anon => exact ⟨rfl, nofun⟩
    | file => exact ⟨rfl, nofun⟩
  have hvacant (p : Page) (hp : c.pages.find? dst = some p) : p.frame = none := by
    rw [vacant] at hp
    exact nomatch hp
  have hfound : update c.pages.find? dst (some ⟨dst.space, page.writable, some id, page.lastAccess,
      true, page.kind.twin⟩) ref = some page := by
    rw [Function.update_of_ne (Ne.symm hne)]
    exact found
  have hmapped : Mapped (update (update c.pages.find? dst (some ⟨dst.space, page.writable, some id,
      page.lastAccess, true, page.kind.twin⟩)) ref (some { page with cow := true }))
      c.frames.find? c.mappings.find? :=
    (h.mapped.away hvacant).replace hfound rfl rfl
  refine of_find ((Table.find?_insert_eq _ _ _).trans
    (congrArg (update · ref _) (Table.find?_insert_eq _ _ _))) (FrameTable.find?_update_eq _ _ _) rfl
    (h.owned.share found resident owned vacant rfl rfl rfl htwin.1) (hmapped.owners owned _) ?_
    (h.pooled.setOwners owned rfl (by simp)) (h.table.update owned _) h.programs
  -- neither the page, which is in memory, nor its twin holds a slot
  refine (h.slotted.replace fun p hp slot hk => ?_).replace fun p hp slot hk => ?_
  · cases hp
    exact (htwin.2 slot hk).elim
  · cases hp
    exact (h.no_slot found resident slot hk).elim

theorem mapShared (h : c.Sound) {dst : PageRef} (found : c.pages.find? ref = some page)
    (vacant : c.pages.find? dst = none) (resident : page.frame = some id)
    (owned : c.frames.find? id = some frame) :
    ((c.share ref dst page id frame).mapShared (page.entryRef ref) frame.page).Sound := by
  have hne := ne_of_found found vacant
  obtain ⟨hsrc, -, hframe⟩ := share_find hne
  rw [h.entryRef found]
  exact (h.share found vacant resident owned).map hsrc resident hframe nofun

theorem write (h : c.Sound) {mapping : Mapping} (mapped : c.mappings.find? ref = some mapping) :
    (c.store ref mapping.page bytes).Sound := by
  obtain ⟨page, id, frame, found, resident, owned, hphys, hw⟩ := h.mapped ref mapping mapped
  refine ⟨h.owned, fun r entry he => ?_, h.slotted, ?_, h.table, h.programs⟩
  · change (c.mappings.modify ref _).find? r = some entry at he
    rw [Table.find?_modify] at he
    split at he
    · obtain ⟨e, hr, rfl⟩ := Option.map_eq_some_iff.1 he
      exact h.mapped r e hr
    · exact h.mapped r entry he
  · have hstored : Pooled (update c.frames.find? id (some frame)) (c.memory.write frame.page bytes) := by
      refine h.pooled.store owned rfl fun hn => ?_
      have hr := h.owner found resident owned
      rw [hn] at hr
      cases hr
    rw [← owned, Function.update_eq_self] at hstored
    rwa [← hphys]

theorem dropAway (h : c.Sound) (found : c.pages.find? ref = some page) (away : page.frame = none)
    (disposed : Disposes { c with pages := c.pages.erase ref } page entry c₁) : c₁.Sound := by
  have hslotted := disposed.slotted h.slotted found
  obtain ⟨swap, files, rfl⟩ := disposed.core_eq
  have hold (p : Page) (hp : c.pages.find? ref = some p) : p.frame = none := by
    rw [found] at hp
    cases hp
    exact away
  refine of_find (Table.find?_erase_eq _ _) rfl rfl ?_ (h.mapped.away hold) hslotted h.pooled h.table
    h.programs
  exact h.owned.away hold fun p hp => nomatch hp

theorem drop (h : c.Sound) (found : c.pages.find? ref = some page) (resident : page.frame = some id)
    (owned : c.frames.find? id = some frame)
    (disposed : Disposes { c with pages := c.pages.erase ref } page (page.entryRef ref) c₁) :
    ((c₁.unmap (page.entryRef ref)).disown id frame ref).Sound := by
  have hslotted := disposed.slotted h.slotted found
  rw [h.entryRef found] at *
  obtain ⟨swap, files, rfl⟩ := disposed.core_eq
  obtain ⟨frames, memory, left, heq, hframes, hleft, htable⟩ := disown_eq
    (Core.unmap { c with pages := c.pages.erase ref, swap, files } ref) id frame ref
  rw [heq]
  refine of_find (Table.find?_erase_eq _ _) hframes (Table.find?_erase_eq _ _) ?_
    (h.mapped.detach h.owned owned hleft.left) hslotted (hleft.pooled h.pooled owned)
    (htable h.table owned) h.programs
  exact h.owned.detach found resident owned (fun p hp => by cases hp) hleft.left

end Sound

theorem Step.sound (h : Step c deeds c') (hs : c.Sound) : c'.Sound := by
  cases h with
  | touch found => exact hs.stamp found
  | learn => exact hs.learn _
  | chart => exact ⟨hs.owned, hs.mapped, hs.slotted, hs.pooled, hs.table, hs.programs⟩
  | add vacant no_slot => exact hs.add vacant no_slot
  | acquire taken => exact hs.acquire taken
  | spoil => exact ⟨hs.owned, hs.mapped, hs.slotted, hs.pooled, hs.table, hs.programs⟩
  | evict found owned saved => exact hs.evict found owned saved
  | fill found away free filled => exact hs.fill found away free filled
  | refuse found away free => exact hs.refuse found away free
  | fail found away kind free made => exact hs.fail found away free made
  | copy found resident owned many free => exact hs.copy found resident owned free
  | lose found resident owned many free => exact hs.lose found resident owned free
  | own found resident owned sole => exact hs.own found resident owned sole
  | remap found resident owned =>
      rw [hs.entryRef found]
      refine hs.map found resident owned fun hw => ?_
      exact (Bool.and_eq_true_iff.1 hw).1
  | share found used vacant resident owned =>
      have hne := ne_of_found found vacant
      obtain ⟨-, hdst, hframe⟩ := share_find hne
      refine (hs.mapShared found vacant resident owned).map hdst rfl hframe ?_
      exact fun hw => nomatch hw
  | shareHalf found used vacant resident owned refused mapped =>
      rcases mapped with rfl | rfl
      · exact hs.share found vacant resident owned
      · exact hs.mapShared found vacant resident owned
  | read => exact hs
  | write mapped => exact hs.write mapped
  | dropAway found away disposed => exact hs.dropAway found away disposed
  | drop found resident owned disposed => exact hs.drop found resident owned disposed

theorem Steps.sound (h : Steps c deeds c') (hs : c.Sound) : c'.Sound :=
  h.keep Step.sound hs

end Core

theorem Machine.fresh_sound (frames : Nat) (sectors : Option Nat) (files : List File)
    (allocator : Allocator := .buddy) :
    (Machine.fresh frames sectors files allocator).core.Sound := by
  have nobody : Owned (fun _ => none) (fun _ => none) := by constructor <;> exact nofun
  have once : Pooled (fun _ => none) (Memory.ofSize frames allocator) := by
    refine ⟨fun p => ?_, nofun, nofun, nofun⟩
    change (Pool.ofSize allocator frames).count p ≤ 1
    rw [Pool.count_ofSize]
    split <;> decide
  have no_slots : Slotted (fun _ => none) (SwapArea.ofDisk (sectors.map Disk.ofSize)) :=
    ⟨SwapArea.ofDisk_backed _, fun _ _ _ h => (nomatch h), fun _ _ _ _ _ h => nomatch h⟩
  have no_entries : Mapped (fun _ => none) (fun _ => none) (fun _ => none) := nofun
  exact .of_find rfl rfl rfl nobody no_entries no_slots once FrameTable.wellFormed_empty
    fun _ _ => rfl

end DemandPaging
