import DemandPaging.Proofs.Copying
import DemandPaging.Proofs.FaultVerdicts
import DemandPaging.Proofs.Reports

/-!
Writes to pages that share a frame. A page is copied exactly if somebody else is in its frame, and those
who stay there are not disturbed by it.
-/

namespace DemandPaging

open DemandPaging.Core
open Keeps

variable {m m' m₁ : Machine} {ref r : PageRef} {page page' : Page} {id new : FrameId} {frame : Frame}
  {s : SpaceId} {addr sp : VirtAddr} {flags : FaultFlags}

namespace Core

variable {c c' : Core} {ds : List Deed}

def Anchored (c : Core) : Prop :=
  ∀ ref page, c.pages.find? ref = some page → page.cow = true → page.frame ≠ none

theorem Anchored.insert (h : c.Anchored) (pages : c'.pages = c.pages.insert ref page)
    (hpage : page.cow = true → page.frame ≠ none) : c'.Anchored := by
  intro r p found
  rw [pages] at found
  rcases Table.find?_insert_eq_some.1 found with ⟨-, rfl⟩ | ⟨-, found⟩
  · exact hpage
  · exact h r p found

theorem Anchored.clear (h : c.Anchored) (pages : c'.pages = c.pages.insert ref page)
    (unmarked : page.cow = false) : c'.Anchored :=
  h.insert pages fun marked => nomatch marked.symm.trans unmarked

theorem Anchored.erase (h : c.Anchored) (pages : c'.pages = c.pages.erase ref) : c'.Anchored := by
  intro r p found
  rw [pages] at found
  exact h r p (Table.find?_erase_eq_some.1 found).2

theorem Anchored.share {src dst : PageRef} (h : c.Anchored) (resident : page.frame = some id) :
    (c.share src dst page id frame).Anchored := by
  have copied : (c.setPage dst ⟨dst.space, page.writable, some id, page.lastAccess, true,
      page.kind.twin⟩).Anchored := h.insert rfl fun _ => nofun
  exact copied.insert rfl fun _ away => nomatch resident.symm.trans away

theorem Step.anchored (h : Step c ds c') (hc : c.Anchored) : c'.Anchored := by
  cases h with
  | touch found => exact hc.insert rfl (hc _ _ found :)
  | add => exact hc.clear rfl rfl
  | evict _ _ saved =>
      obtain ⟨swap, files, rfl⟩ := saved.core_eq
      exact hc.clear rfl rfl
  | fill _ _ _ filled =>
      obtain ⟨swap, programs, rfl, -⟩ := filled.core_eq
      exact hc.clear rfl rfl
  | refuse => exact hc.clear rfl rfl
  | fail _ _ _ _ made =>
      obtain ⟨programs, rfl, -⟩ := made.core_eq
      exact hc.clear rfl rfl
  | copy | lose =>
      have left (ref old shared phys) : (c.diverge ref old shared phys).Anchored :=
        fun r p found => hc r p (diverge_pages c ref old shared phys ▸ found)
      exact (left _ _ _ _).clear rfl rfl
  | own => exact hc.clear rfl rfl
  | share _ _ _ resident => exact hc.share resident
  | shareHalf _ _ _ resident _ _ mapped =>
      rcases mapped with rfl | rfl
      · exact hc.share resident
      · exact hc.share resident
  | dropAway _ _ disposed =>
      obtain ⟨swap, files, rfl⟩ := disposed.core_eq
      exact hc.erase rfl
  | drop _ _ _ disposed =>
      obtain ⟨swap, files, rfl⟩ := disposed.core_eq
      exact hc.erase (disown_pages _ _ _ _)
  | _ => exact hc

theorem diverge_shared {old : FrameId} {shared : Frame} {phys : PhysPage}
    (left : shared.owners.filter (· ≠ ref) ≠ []) : c.diverge ref old shared phys =
      (c.write phys (c.memory.read shared.page)).setFrame old
        ⟨shared.page, shared.owners.filter (· ≠ ref)⟩ :=
  if_neg fun empty => left (List.isEmpty_iff.1 empty)

theorem Sound.leave_length (hs : c.Sound) (owned : c.frames.find? id = some frame)
    (hr : ref ∈ frame.owners) :
    (frame.owners.filter (· ≠ ref)).length + 1 = frame.owners.length := by
  have nodup := hs.owned.nodup id frame owned
  have rest : frame.owners.filter (· ≠ ref) = frame.owners.erase ref := by
    rw [nodup.erase_eq_filter]
    exact List.filter_congr fun a _ => by rw [bne, Bool.beq_eq_decide_eq, decide_not]
  rw [rest, List.length_erase_of_mem hr]
  exact Nat.succ_pred_eq_of_pos (List.length_pos_of_mem hr)

theorem Parts.copied_find {old : FrameId} (h : c.Parts ref page old new true ds c') (hs : c.Sound)
    (found : c.pages.find? ref = some page) (resident : page.frame = some old)
    (owned : c.frames.find? old = some frame) (many : frame.owners.length ≠ 1) : new ≠ old ∧
      c'.frames.find? old = some ⟨frame.page, frame.owners.filter (· ≠ ref)⟩ ∧
      c'.memory.read frame.page = c.memory.read frame.page ∧
      (∀ r, ref ≠ r → c'.pages.find? r = c.pages.find? r ∧
        c'.mappings.find? r = c.mappings.find? r) ∧
      c'.pages.find? ref = some { page with frame := some new, cow := false } ∧
      ∃ phys, c'.frames.find? new = some ⟨phys, [ref]⟩ ∧
        c'.memory.read phys = c.memory.read frame.page ∧
        c'.mappings.find? ref = some ⟨phys, page.writable, c.dirty ref⟩ := by
  have fewer := hs.leave_length owned (hs.owner found resident owned)
  have left : frame.owners.filter (· ≠ ref) ≠ [] := fun empty => by
    rw [empty] at fewer
    exact many fewer.symm
  cases h with
  | @copied _ phys owned' _ free =>
      cases Option.some.inj (owned.symm.trans owned')
      have apart := hs.new_ne found resident free
      have phys_ne : phys ≠ frame.page := fun same => apart (hs.pooled.inj _ _ _ _ free owned same)
      rw [diverge_shared left, hs.entryRef found]
      refine ⟨apart, ?_, ?_, fun r hr => ⟨?_, ?_⟩, ?_, phys, ?_, ?_, ?_⟩
      · refine (FrameTable.find?_update_of_ne (Ne.symm apart)).trans ?_
        exact FrameTable.find?_update_self
      · exact Memory.read_write_of_ne (Ne.symm phys_ne)
      · exact Table.find?_insert_of_ne (Ne.symm hr)
      · exact Table.find?_insert_of_ne (Ne.symm hr)
      · exact Table.find?_insert_self
      · exact FrameTable.find?_update_self
      · exact Memory.read_write_self
      · exact Table.find?_insert_self

end Core

theorem allocateFrame_bytes (coherent : m.Coherent) (owned : m.frames.find? id = some frame)
    (many : frame.owners.length ≠ 1) (h : allocateFrame m = .ok new m') :
    m'.memory.read frame.page = m.memory.read frame.page := by
  rcases allocateFrame_ok coherent h with ⟨phys, memory, console, taken, -, rfl⟩ | ⟨-, evicts⟩
  · exact coherent.sound.pooled.acquire_read taken owned
  · generalize hgot : some new = got at evicts
    cases evicts with
    | none => exact nomatch hgot
    | @some refused rest v kind swap files console split =>
        have stands : v.Stands m.core :=
          (Machine.mem_victims.1 (split ▸ List.mem_append_right _ List.mem_cons_self)).1
        refine (Memory.read_write _ _ _ _).trans (if_neg fun same => many ?_)
        -- a victim is the only owner of its frame
        have hid := coherent.phys_apart stands owned same.symm
        cases Option.some.inj ((hid ▸ owned).symm.trans stands.2)
        rfl

theorem allocateFrame_sharers {shared : Frame} {new : FrameId} {r : PageRef} (hs : m.core.Sound)
    (owned : m.core.frames.find? id = some shared) (many : shared.owners.length ≠ 1)
    (taken : allocateFrame m = .ok new m') (hr : r ∈ shared.owners) :
    m'.core.pages.find? r = m.core.pages.find? r ∧
      m'.core.mappings.find? r = m.core.mappings.find? r := by
  obtain ⟨p, hp, hid⟩ := hs.owned.page_of id shared r owned hr
  obtain ⟨found, -, entry⟩ := (allocateFrame_shuffles hs taken).pins r p id shared hp hid owned many
  exact ⟨found.trans hp.symm, entry⟩

/-- How a write goes on to a page that counts as shared. A page that is alone in its frame stays there,
and no frame is taken. Any other is copied to a frame of its own and leaves the old one as it is to the
others, of whom nothing changes. Either way its entry is a writable one that is as dirty as before. -/
inductive Machine.Unshares (m : Machine) (ref : PageRef) (page : Page) (m' : Machine) : Prop where
  | kept {id : FrameId} {phys : PhysPage} {time : Nat} (resident : page.frame = some id)
      (alone : m.frames.find? id = some ⟨phys, [ref]⟩) (frames : m'.frames = m.frames)
      (memory : m'.memory = m.memory) (swap : m'.swap = m.swap) (files : m'.core.files = m.core.files)
      (pages : m'.pages = m.pages.insert ref { page with lastAccess := time, cow := false })
      (entries : m'.mappings = m.mappings.insert ref ⟨phys, true, m.core.dirty ref⟩)
      (copies : m'.copies = m.copies)
  | copied {old new : FrameId} {shared : Frame} {phys : PhysPage} {time : Nat}
      (resident : page.frame = some old) (owned : m.frames.find? old = some shared)
      (many : 2 ≤ shared.owners.length) (apart : new ≠ old)
      (found : m'.pages.find? ref =
        some { page with frame := some new, lastAccess := time, cow := false })
      (entry : m'.mappings.find? ref = some ⟨phys, true, m.core.dirty ref⟩)
      (alone : m'.frames.find? new = some ⟨phys, [ref]⟩)
      (bytes : m'.memory.read phys = m.memory.read shared.page)
      (left : m'.frames.find? old = some ⟨shared.page, shared.owners.filter (· ≠ ref)⟩)
      (fewer : (shared.owners.filter (· ≠ ref)).length + 1 = shared.owners.length)
      (same : m'.memory.read shared.page = m.memory.read shared.page)
      (others : ∀ r ∈ shared.owners, r ≠ ref →
        m'.pages.find? r = m.pages.find? r ∧ m'.mappings.find? r = m.mappings.find? r)
      (copies : m'.copies = ref.va :: m.copies)

theorem breakSharing_kept {shared : Frame} (hs : m.core.Sound)
    (found : m.core.pages.find? ref = some page) (resident : page.frame = some id)
    (writable : page.writable = true) (owned : m.core.frames.find? id = some shared)
    (sole : shared.owners.length = 1) (copies : m'.copies = m.copies)
    (h : breakSharing ref page id m = .ok true m') : m.Unshares ref page m' := by
  obtain ⟨m₁, hm₁, remapped⟩ := breakSharing_alone owned sole h
  have hm' := remap_done remapped
  rw [hm₁, hs.entryRef found] at hm'
  have alone : shared = ⟨shared.page, [ref]⟩ := by
    have hown := hs.owner found resident owned
    obtain ⟨owner, only⟩ := List.length_eq_one_iff.1 sole
    rw [only] at hown
    rw [List.mem_singleton.1 hown, ← only]
  have pages : m'.pages = m.pages.insert ref { page with lastAccess := m.clock + 1, cow := false } :=
    (congrArg Core.pages hm').trans (Table.insert_insert _ _ _ _)
  have entries : m'.mappings = m.mappings.insert ref ⟨shared.page, page.writable, m.core.dirty ref⟩ :=
    congrArg Core.mappings hm'
  rw [writable] at entries
  exact .kept resident (owned.trans (congrArg some alone)) (congrArg Core.frames hm')
    (congrArg Core.memory hm') (congrArg Core.swap hm') (hm' ▸ rfl) pages entries copies

theorem breakSharing_copied {shared : Frame} {m₁ m₂ : Machine} (coherent : m.Coherent)
    (found : m.core.pages.find? ref = some page) (resident : page.frame = some id)
    (writable : page.writable = true) (owned : m.core.frames.find? id = some shared)
    (many : shared.owners.length ≠ 1) (stamped : m₁.core = m.core.stamp ref page)
    (taken : allocateFrame m₁ = .ok new m₂)
    (found₂ : m₂.core.pages.find? ref = some { page with lastAccess := m.core.clock + 1 })
    (parts : m₂.core.Parts ref { page with lastAccess := m.core.clock + 1 } id new true ds m'.core)
    (copies : m'.copies = ref.va :: m.copies) : m.Unshares ref page m' := by
  have hs := coherent.sound
  have hown := hs.owner found resident owned
  have fewer := hs.leave_length owned hown
  have stamp : Step m.core [] m₁.core := stamped ▸ .touch found
  have coherent₁ : m₁.Coherent := coherent.steps stamp.steps
  have hs₁ := coherent₁.sound
  have owned₁ : m₁.core.frames.find? id = some shared := stamped ▸ owned
  obtain ⟨run, ⟨phys₀, free⟩, spares⟩ := allocateFrame_core hs₁ taken
  have hs₂ := run.sound hs₁
  have others := spares.others id (hs₂.new_ne found₂ resident free).symm
  have owned₂ : m₂.core.frames.find? id = some shared := others.trans owned₁
  have hlen : 2 ≤ shared.owners.length := by
    have := List.length_pos_of_mem hown
    omega
  obtain ⟨apart, left, same, rest, found', phys, alone, bytes, entry⟩ :=
    parts.copied_find hs₂ found₂ resident owned₂ many
  have kept (r : PageRef) (hr : r ∈ shared.owners) := allocateFrame_sharers hs₁ owned₁ many taken hr
  have entries (r : PageRef) (hr : r ∈ shared.owners) :
      m₂.core.mappings.find? r = m.core.mappings.find? r :=
    (kept r hr).2.trans (congrArg (·.mappings.find? r) stamped)
  have pages (r : PageRef) (hr : r ∈ shared.owners) (hne : ref ≠ r) :
      m₂.core.pages.find? r = m.core.pages.find? r := by
    rw [(kept r hr).1, stamped]
    exact Table.find?_insert_of_ne (Ne.symm hne)
  have before : m₂.core.memory.read shared.page = m.core.memory.read shared.page := by
    rw [show m₂.core.memory.read shared.page = _ from allocateFrame_bytes coherent₁ owned₁ many taken]
    exact congrArg (·.memory.read shared.page) stamped
  have dirty : m₂.core.dirty ref = m.core.dirty ref := by
    rw [Core.dirty, entries ref hown]
    rfl
  rw [dirty, show Page.writable _ = true from writable] at entry
  exact .copied resident owned hlen apart found' entry alone (bytes.trans before) left fewer
    (same.trans before) (fun r hr hne => ⟨(rest r hne.symm).1.trans (pages r hr hne.symm),
      (rest r hne.symm).2.trans (entries r hr)⟩) copies

theorem breakSharing_unshares (coherent : m.Coherent) (found : m.core.pages.find? ref = some page)
    (resident : page.frame = some id) (writable : page.writable = true)
    (h : breakSharing ref page id m = .ok true m') : m.Unshares ref page m' := by
  have hs := coherent.sound
  obtain ⟨shared, owned, copies⟩ := breakSharing_reports h
  by_cases sole : shared.owners.length = 1
  · rw [if_pos sole] at copies
    exact breakSharing_kept hs found resident writable owned sole copies h
  · rw [if_neg sole] at copies
    cases breakSharing_breaks hs found resident h with
    | alone owned' only =>
        cases Option.some.inj (owned.symm.trans owned')
        exact (sole only).elim
    | parted touched taken found₂ parts =>
        exact breakSharing_copied coherent found resident writable owned sole
          (congrArg Machine.core touched) taken found₂ parts copies

theorem Machine.Unshares.looked {event : Event} (plain : event.copied? = none)
    (touched : touch ref page { m with console := event :: m.console } = .ok page' m₁)
    (h : m₁.Unshares ref page' m') : m.Unshares ref page m' := by
  obtain ⟨rfl, rfl⟩ := touch_ok touched
  have reported : Machine.copies { m with
      console := event :: m.console
      clock := m.clock + 1
      pages := m.pages.insert ref { page with lastAccess := m.clock + 1 } } = m.copies := by
    rw [Machine.copies, List.filterMap_cons_none plain]
    rfl
  cases h with
  | kept resident alone frames memory swap files pages entries copies =>
      exact .kept resident alone frames memory swap files
        (pages.trans (Table.insert_insert _ _ _ _)) entries (copies.trans reported)
  | copied resident owned many apart found entry alone bytes left fewer same others copies =>
      refine .copied resident owned many apart found entry alone bytes left fewer same
        (fun r hr hne => ⟨(others r hr hne).1.trans ?_, (others r hr hne).2⟩)
        (copies.trans (congrArg _ reported))
      exact Table.find?_insert_of_ne hne

theorem resolve_unshares (coherent : m.Coherent) (anchored : m.core.Anchored)
    (found : m.core.pages.find? ref = some page) (cow : page.cow = true)
    (h : resolve ref true m = .ok true m') : m.Unshares ref page m' := by
  have writable : page.writable = true := by
    simpa using (Bool.and_eq_true_iff.1 (resolve_verdict coherent found h).symm).1
  rcases resolve_write found writable h with ⟨away, -⟩ | ⟨-, id, resident, run⟩ | ⟨alone, -⟩
  · exact (anchored ref page found cow away).elim
  · exact breakSharing_unshares coherent found resident writable run
  · exact nomatch alone.symm.trans cow

theorem resolveFault_unshares (coherent : m.Coherent) (anchored : m.core.Anchored)
    (found : m.pages.find? ⟨s, addr.vpnFloor⟩ = some page) (cow : page.cow = true)
    (write : flags.write = true) (h : resolveFault s addr sp flags m = .ok true m') :
    m.Unshares ⟨s, addr.vpnFloor⟩ page m' := by
  cases resolveFault_faulted h with
  | refused _ answer => exact nomatch answer
  | grown _ _ _ absent => exact nomatch absent.symm.trans found
  | @there _ page' m₁ user faulty found' touched resolved =>
      cases Option.some.inj (found.symm.trans found')
      obtain ⟨stamped, there⟩ := touch_step (m := { m with console := _ }) found touched
      rw [write] at resolved
      refine .looked rfl touched (resolve_unshares (coherent.steps stamped.steps)
        (stamped.anchored anchored) there ?_ resolved)
      rw [(touch_ok touched).1]
      exact cow

/-! Several pages that are in one frame are written to, each for the first time. -/

namespace Core

variable {c c' : Core} {ds : List Deed} {refs : List PageRef} {a b : PageRef}

theorem Step.together_joined (h : Step c ds c') (hs : c.Sound) (there : c.pages.find? a ≠ none)
    (together : c'.Together a b) : c.Together a b ∨
      ∃ src whole, .share src b whole ∈ ds ∧ (a = src ∨ c.Together a src) := by
  have joined {src dst : PageRef} {whole : Bool} {p : Page} {i : FrameId} {f : Frame}
      (share : Step c [.share src dst whole] c') (found : c.pages.find? src = some p)
      (vacant : c.pages.find? dst = none) (resident : p.frame = some i)
      (owned : c.frames.find? i = some f)
      (frames : c'.frames = (c.share src dst p i f).frames) : c.Together a b ∨
        ∃ s w, .share s b w ∈ [Deed.share src dst whole] ∧ (a = s ∨ c.Together a s) := by
    have ha : a ≠ dst := by
      rintro rfl
      exact there vacant
    by_cases hb : b = dst
    · subst hb
      refine .inr ⟨src, whole, List.mem_cons_self, or_iff_not_imp_left.2 fun hne => ?_⟩
      obtain ⟨-, j, g, hg, hag, hbg⟩ := together
      rw [frames] at hg
      have hg := (FrameTable.find?_update _ _ _ _).symm.trans hg
      split at hg
      · cases hg
        have haf := (List.mem_append.1 hag).resolve_right fun h => ha (List.mem_singleton.1 h)
        exact ⟨hne, i, f, owned, haf, hs.owner found resident owned⟩
      · obtain ⟨_, hp, -⟩ := hs.owned.page_of j g b hg hbg
        exact nomatch vacant.symm.trans hp
    · exact .inl ((share.together_share ha hb).1 together)
  have step := h
  cases h with
  | share found used vacant resident owned => exact joined step found vacant resident owned rfl
  | shareHalf found used vacant resident owned _ mapped =>
      exact joined step found vacant resident owned (by rcases mapped with rfl | rfl <;> rfl)
  | fill _ _ _ filled =>
      exact .inl (step.together_before hs (fun _ _ _ hd => filled.settles.1 _ hd) together)
  | _ => exact .inl (step.together_before hs (by simp) together)

/-- Pages that are in use, each in one frame with all the others and with nobody else. -/
structure Circle (c : Core) (refs : List PageRef) : Prop where
  used : ∀ ref ∈ refs, ∃ page, c.pages.find? ref = some page ∧ page.kind.isUninit = false
  together : ∀ a ∈ refs, ∀ b ∈ refs, a ≠ b → c.Together a b
  closed : ∀ a ∈ refs, ∀ r, c.Together a r → r ∈ refs

/-- Whatever is done, the pages are not dropped, are shared with nobody and stay together. -/
structure Waits (c : Core) (refs : List PageRef) (ds : List Deed) (c' : Core) : Prop where
  run : Steps c ds c'
  stay : ∀ ref ∈ refs, .drop ref ∉ ds
  unshared : ∀ ref ∈ refs, ∀ dst whole, .share ref dst whole ∉ ds
  together : ∀ a ∈ refs, ∀ b ∈ refs, c.Together a b → c'.Together a b

theorem Steps.closed (h : Steps c ds c') (hs : c.Sound)
    (there : ∀ a ∈ refs, ∃ page, c.pages.find? a = some page) (stay : ∀ ref ∈ refs, .drop ref ∉ ds)
    (unshared : ∀ ref ∈ refs, ∀ dst whole, .share ref dst whole ∉ ds)
    (closed : ∀ a ∈ refs, ∀ r, c.Together a r → r ∈ refs) :
    ∀ a ∈ refs, ∀ r, c'.Together a r → r ∈ refs := by
  induction h with
  | refl => exact closed
  | @tail c₁ c₂ ds es run step ih =>
      intro a ha r together
      have before := ih (fun ref hr hd => stay ref hr (List.mem_append_left _ hd))
        fun ref hr dst whole hd => unshared ref hr dst whole (List.mem_append_left _ hd)
      obtain ⟨page, found⟩ := there a ha
      obtain ⟨page₁, found₁, -⟩ := run.remains found fun hd =>
        stay a ha (List.mem_append_left _ hd)
      have present : c₁.pages.find? a ≠ none := by rw [found₁]; exact nofun
      rcases step.together_joined (run.sound hs) present together with old | ⟨src, whole, hd, joined⟩
      · exact before a ha r old
      · have hsrc : src ∈ refs := joined.elim (fun h => h ▸ ha) (before a ha src)
        exact (unshared src hsrc r whole (List.mem_append_right _ hd)).elim

theorem Circle.waits (h : c.Circle refs) (hs : c.Sound) (waits : c.Waits refs ds c') :
    c'.Circle refs := by
  refine ⟨fun ref hr => ?_, fun a ha b hb hne => ?_, ?_⟩
  · obtain ⟨page, found, used⟩ := h.used ref hr
    obtain ⟨page', found', same⟩ := waits.run.remains found (waits.stay ref hr)
    exact ⟨page', found', same.used used⟩
  · exact waits.together a ha b hb (h.together a ha b hb hne)
  · exact waits.run.closed hs (fun a ha => (h.used a ha).imp fun _ => And.left) waits.stay
      waits.unshared h.closed

theorem Sound.circle (hs : c.Sound) (owned : c.frames.find? id = some frame)
    (perm : refs.Perm frame.owners) : c.Circle refs := by
  refine ⟨fun ref hr => ?_, fun a ha b hb hne => ?_, fun a ha r together => ?_⟩
  · obtain ⟨page, found, resident⟩ := hs.owned.page_of id frame ref owned (perm.mem_iff.1 hr)
    refine ⟨page, found, Bool.eq_false_iff.2 fun unused => ?_⟩
    exact nomatch (hs.owned.unused ref page found unused).symm.trans resident
  · exact ⟨hne, id, frame, owned, perm.mem_iff.1 ha, perm.mem_iff.1 hb⟩
  · obtain ⟨page, found, resident⟩ := hs.owned.page_of id frame a owned (perm.mem_iff.1 ha)
    exact perm.mem_iff.2 ((hs.owner_iff found resident owned).2 (.inr together))

end Core

/-- Pages are written to one after the other, and for each the fault is resolved. Whatever happens in
between, the pages that are still to come wait. The number is how many copies are made for them. -/
inductive Machine.FirstWrites : Machine → List PageRef → Nat → Machine → Prop where
  | nil {m : Machine} : FirstWrites m [] 0 m
  | next {m m₁ m₂ m' : Machine} {s : SpaceId} {addr sp : VirtAddr} {flags : FaultFlags}
      {rest : List PageRef} {ds : List Deed} {copied n : Nat}
      (waits : m.core.Waits (⟨s, addr.vpnFloor⟩ :: rest) ds m₁.core) (write : flags.write = true)
      (resolved : resolveFault s addr sp flags m₁ = .ok true m₂)
      (copies : m₂.copies.length = m₁.copies.length + copied) (later : FirstWrites m₂ rest n m') :
      FirstWrites m (⟨s, addr.vpnFloor⟩ :: rest) (copied + n) m'

variable {refs rest : List PageRef} {n : Nat}

theorem resolveFault_user (coherent : m.Coherent) (write : flags.write = true)
    (found : m.core.pages.find? ⟨s, addr.vpnFloor⟩ = some page)
    (h : resolveFault s addr sp flags m = .ok true m') :
    addr.isUser = true ∧ page.writable = true := by
  obtain ⟨user, -, -, there⟩ := (resolveFault_verdict coherent h).1 rfl
  rw [show m.pages.find? ⟨s, addr.vpnFloor⟩ = some page from found] at there
  exact ⟨VirtAddr.isUser_iff.2 user, there.1 write⟩

theorem Core.Circle.last (circle : m.core.Circle [⟨s, addr.vpnFloor⟩]) (coherent : m.Coherent)
    (write : flags.write = true) (h : resolveFault s addr sp flags m = .ok true m') :
    m'.copies = m.copies := by
  obtain ⟨page, found, used⟩ := circle.used _ List.mem_cons_self
  obtain ⟨user, writable⟩ := resolveFault_user coherent write found h
  have ready : m.core.Ready ⟨s, addr.vpnFloor⟩ := ⟨page, found, writable, used⟩
  rcases resolveFault_reports coherent.sound user write ready h with same | ⟨-, r, together⟩
  · exact same
  · have hr := circle.closed _ List.mem_cons_self r together
    exact (together.1 (List.mem_singleton.1 hr).symm).elim

theorem Core.Circle.another (circle : m.core.Circle (⟨s, addr.vpnFloor⟩ :: rest))
    (coherent : m.Coherent) (anchored : m.core.Anchored)
    (nodup : (⟨s, addr.vpnFloor⟩ :: rest : List PageRef).Nodup) (more : rest ≠ [])
    (write : flags.write = true) (h : resolveFault s addr sp flags m = .ok true m') :
    m'.copies.length = m.copies.length + 1 ∧ m'.core.Circle rest := by
  have hs := coherent.sound
  obtain ⟨b, hb⟩ := List.exists_mem_of_ne_nil rest more
  have others {r : PageRef} (hr : r ∈ rest) : r ≠ ⟨s, addr.vpnFloor⟩ := fun he =>
    (List.nodup_cons.1 nodup).1 (he ▸ hr)
  have pair := circle.together _ List.mem_cons_self b (List.mem_cons_of_mem _ hb) (others hb).symm
  obtain ⟨-, id, frame, owned, hown, hb'⟩ := pair
  obtain ⟨page, found, resident⟩ := hs.owned.page_of id frame _ owned hown
  have cow := hs.cow_of_many found resident owned (many_of_mem (others hb) hb' hown)
  obtain ⟨ds, run, -⟩ := resolveFault_core hs h
  cases resolveFault_unshares coherent anchored found cow write h with
  | kept resident' alone =>
      cases Option.some.inj (resident.symm.trans resident')
      cases Option.some.inj (owned.symm.trans alone)
      exact (others hb (List.mem_singleton.1 hb')).elim
  | @copied old new shared phys time resident' owned' many apart found' entry alone bytes left fewer
      same kept copies =>
      cases Option.some.inj (resident.symm.trans resident')
      cases Option.some.inj (owned.symm.trans owned')
      -- who is left in the frame are the pages to come
      have mem (r : PageRef) : r ∈ frame.owners.filter (· ≠ ⟨s, addr.vpnFloor⟩) ↔ r ∈ rest := by
        rw [List.mem_filter, decide_eq_true_eq]
        constructor
        · rintro ⟨hr, hne⟩
          have together : m.core.Together ⟨s, addr.vpnFloor⟩ r := ⟨hne.symm, _, _, owned, hown, hr⟩
          exact (List.mem_cons.1 (circle.closed _ List.mem_cons_self r together)).resolve_left hne
        · intro hr
          refine ⟨(hs.owner_iff found resident owned).2 (.inr ?_), others hr⟩
          exact circle.together _ List.mem_cons_self r (List.mem_cons_of_mem _ hr) (others hr).symm
      refine ⟨by rw [copies, List.length_cons], (run.sound hs).circle left ?_⟩
      refine (List.perm_ext_iff_of_nodup (List.nodup_cons.1 nodup).2 ?_).2 fun r => (mem r).symm
      exact (run.sound hs).owned.nodup _ _ left

theorem Machine.FirstWrites.count (h : m.FirstWrites refs n m') (coherent : m.Coherent)
    (anchored : m.core.Anchored) (circle : m.core.Circle refs) (nodup : refs.Nodup) :
    n = refs.length - 1 := by
  induction h with
  | nil => rfl
  | @next m m₁ m₂ m' s addr sp flags rest ds copied n waits write resolved copies later ih =>
      have coherent₁ : m₁.Coherent := coherent.steps waits.run
      have anchored₁ : m₁.core.Anchored := waits.run.keep Step.anchored anchored
      have circle₁ := circle.waits coherent.sound waits
      obtain ⟨es, run, -⟩ := resolveFault_core coherent₁.sound resolved
      by_cases more : rest = []
      · subst more
        have same := circle₁.last coherent₁ write resolved
        cases later
        rw [same] at copies
        rw [List.length_singleton]
        omega
      · obtain ⟨one, circle₂⟩ := circle₁.another coherent₁ anchored₁ nodup more write resolved
        have rest_count := ih (coherent₁.steps run) (run.keep Step.anchored anchored₁) circle₂
          (List.nodup_cons.1 nodup).2
        have := List.length_pos_of_ne_nil more
        rw [List.length_cons]
        omega

variable {frames : Nat} {sectors : Option Nat} {files : List File} {allocator : Allocator}

theorem Machine.Passes.anchored (passes : (Machine.fresh frames sectors files allocator).Passes m) :
    m.core.Anchored :=
  passes.keepCore Step.anchored (fun _ _ _ h => h) (Machine.fresh_tidy frames sectors files allocator) nofun

/-- Where the fault of a write is resolved, a page that counts as shared is copied exactly if somebody else
is in its frame; the others keep the frame, their bytes and their entries, also if the frame for the copy
is taken from a page. If the pages in a frame are all written to, in whatever order, it takes one copy
less than there are pages. -/
theorem copy_on_write_exact (passes : (Machine.fresh frames sectors files allocator).Passes m) :
    (∀ s addr sp flags page m', m.pages.find? ⟨s, addr.vpnFloor⟩ = some page → page.cow = true →
      flags.write = true → resolveFault s addr sp flags m = .ok true m' →
        m.Unshares ⟨s, addr.vpnFloor⟩ page m') ∧
    ∀ id frame refs n m', m.frames.find? id = some frame → refs.Perm frame.owners →
      m.FirstWrites refs n m' → n = frame.owners.length - 1 := by
  have coherent := passes.coherent
  refine ⟨fun s addr sp flags page m' found cow write resolved =>
    resolveFault_unshares coherent passes.anchored found cow write resolved,
    fun id frame refs n m' owned perm writes => ?_⟩
  have nodup : refs.Nodup := perm.nodup_iff.2 (coherent.sound.owned.nodup id frame owned)
  rw [← perm.length_eq]
  exact writes.count coherent passes.anchored (coherent.sound.circle owned perm) nodup

/-- Three pages share one of two frames and another page has the other one, which goes for the first copy;
the copy itself goes for the second. The third page needs none. -/
theorem copy_on_write_exact_of_three : ∃ m m₁ m' id frame page,
    (Machine.fresh 2 (some 32) []).Passes m ∧ m.memory.pool.free = 0 ∧
    m.frames.find? id = some frame ∧ frame.owners = [⟨0, ⟨1⟩⟩, ⟨1, ⟨1⟩⟩, ⟨2, ⟨1⟩⟩] ∧
    m.pages.find? ⟨1, ⟨1⟩⟩ = some page ∧ page.cow = true ∧
    resolveFault 1 (.ofBits 4096) (.ofBits 0) (.ofParts true true true) m = .ok true m₁ ∧
    m.Unshares ⟨1, ⟨1⟩⟩ page m₁ ∧ m.FirstWrites [⟨1, ⟨1⟩⟩, ⟨0, ⟨1⟩⟩, ⟨2, ⟨1⟩⟩] 2 m' ∧
    2 = frame.owners.length - 1 := by
  have played : ((Machine.fresh 2 (some 32) []).serve [.newSpace, .newSpace,
      .declare 0 (.ofBits 4096) true .anon none, .write 0 (.ofBits 4096) #[7] (.ofBits 0),
      .fork 0 1 .asStored, .fork 0 2 .asStored, .declare 0 (.ofBits 8192) true .anon none,
      .write 0 (.ofBits 8192) #[8] (.ofBits 0)]).any (fun r => r.2.memory.pool.free == 0 &&
        (r.2.pages.find? ⟨1, ⟨1⟩⟩).any (fun page => page.cow && (page.frame.bind
          r.2.frames.find?).any fun frame => frame.owners == [⟨0, ⟨1⟩⟩, ⟨1, ⟨1⟩⟩, ⟨2, ⟨1⟩⟩]) &&
        (r.2.outcome (resolveFault 1 (.ofBits 4096) (.ofBits 0) (.ofParts true true true))).any
          fun r₁ => r₁.1 && r₁.2.copies.length == r.2.copies.length + 1 &&
            (r₁.2.outcome (resolveFault 0 (.ofBits 4096) (.ofBits 0) (.ofParts true true true))).any
              fun r₂ => r₂.1 && r₂.2.copies.length == r₁.2.copies.length + 1 &&
                (r₂.2.outcome (resolveFault 2 (.ofBits 4096) (.ofBits 0)
                  (.ofParts true true true))).any
                    fun r₃ => r₃.1 && r₃.2.copies.length == r₂.2.copies.length) = true := by
    decide +kernel
  obtain ⟨⟨log, m⟩, hserved, hcheck⟩ := (Option.any_eq_true _ _).1 played
  simp only [Bool.and_eq_true, beq_iff_eq] at hcheck
  obtain ⟨⟨full, hpage⟩, hcheck⟩ := hcheck
  obtain ⟨page, found, hpage⟩ := (Option.any_eq_true _ _).1 hpage
  obtain ⟨cow, hframe⟩ := Bool.and_eq_true_iff.1 hpage
  obtain ⟨frame, hbind, owners⟩ := (Option.any_eq_true _ _).1 hframe
  obtain ⟨id, -, owned⟩ := Option.bind_eq_some_iff.1 hbind
  rw [beq_iff_eq] at owners
  obtain ⟨⟨done₁, m₁⟩, first, hcheck⟩ := (Option.any_eq_true _ _).1 hcheck
  simp only [Bool.and_eq_true, beq_iff_eq] at hcheck
  obtain ⟨⟨rfl, one⟩, hcheck⟩ := hcheck
  obtain ⟨⟨done₂, m₂⟩, second, hcheck⟩ := (Option.any_eq_true _ _).1 hcheck
  simp only [Bool.and_eq_true, beq_iff_eq] at hcheck
  obtain ⟨⟨rfl, two⟩, hcheck⟩ := hcheck
  obtain ⟨⟨done₃, m'⟩, third, hcheck⟩ := (Option.any_eq_true _ _).1 hcheck
  simp only [Bool.and_eq_true, beq_iff_eq] at hcheck
  obtain ⟨rfl, three⟩ := hcheck
  rw [Machine.outcome_eq_some] at first second third
  have passes := (Machine.Reaches.refl.serve hserved).passes m.held
  have waits (c : Core) (refs : List PageRef) : c.Waits refs [] c :=
    ⟨.refl c, fun _ _ => List.not_mem_nil, fun _ _ _ _ => List.not_mem_nil, fun _ _ _ _ h => h⟩
  have last : m₂.FirstWrites [⟨2, ⟨1⟩⟩] (0 + 0) m' := .next (waits _ _) rfl third three .nil
  have writes : m.FirstWrites [⟨1, ⟨1⟩⟩, ⟨0, ⟨1⟩⟩, ⟨2, ⟨1⟩⟩] (1 + (1 + (0 + 0))) m' :=
    .next (waits _ _) rfl first one (.next (waits _ _) rfl second two last)
  have perm : [(⟨1, ⟨1⟩⟩ : PageRef), ⟨0, ⟨1⟩⟩, ⟨2, ⟨1⟩⟩].Perm frame.owners := by
    rw [owners]
    exact .swap _ _ _
  obtain ⟨unshares, counts⟩ := copy_on_write_exact passes
  exact ⟨m, m₁, m', id, frame, page, passes, full, owned, owners, found, cow, first,
    unshares _ _ _ _ _ _ found cow rfl first, writes, counts _ _ _ _ _ owned perm writes⟩

end DemandPaging
