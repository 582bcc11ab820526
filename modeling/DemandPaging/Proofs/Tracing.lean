import DemandPaging.Proofs.Filling
import DemandPaging.Proofs.Handles
import DemandPaging.Proofs.Sound

namespace DemandPaging

open DemandPaging.Core

variable {m m' : Machine} {ref entry : PageRef} {page : Page} {id : FrameId} {u : Unit}

namespace Core

/-- What a search for a frame leaves alone: pages without a frame of their own, frames that have no
owner or several, and all frames but the one that is found. -/
structure Spares (c c' : Core) (id : FrameId) : Prop where
  page : ∀ ref page, c.pages.find? ref = some page →
    (∀ id frame, page.frame = some id → c.frames.find? id = some frame → frame.owners.length ≠ 1) →
      c'.pages.find? ref = some page
  frame : ∀ id frame, c.frames.find? id = some frame → frame.owners.length ≠ 1 →
    c'.frames.find? id = some frame
  others : ∀ i, i ≠ id → c'.frames.find? i = c.frames.find? i

theorem Spares.of_eq {c c' : Core} (hp : c'.pages = c.pages) (hf : c'.frames = c.frames) :
    c.Spares c' id :=
  ⟨fun _ _ h _ => hp ▸ h, fun _ _ h _ => hf ▸ h, fun _ _ => hf ▸ rfl⟩

theorem Spares.trans {c c₁ c₂ : Core} (hs : c.Sound) (h : c.Spares c₁ id) (h' : c₁.Spares c₂ id) :
    c.Spares c₂ id := by
  refine ⟨fun ref page found many => ?_, fun id frame found many => ?_, fun i hi => ?_⟩
  · refine h'.page ref page (h.page ref page found many) fun id frame hid hframe => ?_
    obtain ⟨f, hf, -⟩ := hs.owned.frame_of ref page id found hid
    have hmany := many id f hid hf
    rw [h.frame id f hf hmany] at hframe
    cases hframe
    exact hmany
  · exact h'.frame id frame (h.frame id frame found many) many
  · exact (h'.others i hi).trans (h.others i hi)

end Core

def Victim.Stands (v : Victim) (c : Core) : Prop :=
  c.pages.find? v.ref = some v.page ∧ c.frames.find? v.id = some ⟨v.phys, [v.ref]⟩

theorem Machine.victims_stand {v : Victim} (h : v ∈ m.victims) : v.Stands m.core := by
  obtain ⟨⟨id, frame⟩, hrow, hv⟩ := List.mem_filterMap.1 ((Victim.sortByAge_perm _).mem_iff.1 h)
  have hframe : m.frames.find? id = some frame := Table.find?_eq_some.2 hrow
  replace hv : m.victim? id frame = some v := hv
  unfold Machine.victim? at hv
  split at hv
  · next ref howners =>
      split at hv
      · cases hv
      · obtain ⟨page, hpage, rfl⟩ := Option.map_eq_some_iff.1 hv
        refine ⟨hpage, hframe.trans ?_⟩
        rw [← howners]
  · cases hv

theorem frame_core {frame : Frame} (h : DemandPaging.frame id m = .ok frame m') :
    m.core.frames.find? id = some frame ∧ m = m' := by
  replace h := bind_get_ok.1 h
  cases hf : m.frames.find? id with
  | none =>
      simp only [hf] at h
      exact (throw_ok.1 h).elim
  | some found =>
      simp only [hf] at h
      obtain ⟨rfl, rfl⟩ := pure_ok.1 h
      exact ⟨hf, rfl⟩

theorem physPage_core {phys : PhysPage} (h : physPage id m = .ok phys m') :
    ∃ frame, m.core.frames.find? id = some frame ∧ phys = frame.page ∧ m = m' := by
  obtain ⟨frame, _, h₁, h⟩ := bind_ok.1 h
  obtain ⟨hf, rfl⟩ := frame_core h₁
  obtain ⟨rfl, rfl⟩ := pure_ok.1 h
  exact ⟨frame, hf, rfl, rfl⟩

theorem refCount_core {n : Nat} (h : refCount id m = .ok n m') :
    ∃ frame, m.core.frames.find? id = some frame ∧ n = frame.owners.length ∧ m = m' := by
  obtain ⟨frame, _, h₁, h⟩ := bind_ok.1 h
  obtain ⟨hf, rfl⟩ := frame_core h₁
  obtain ⟨rfl, rfl⟩ := pure_ok.1 h
  exact ⟨frame, hf, rfl, rfl⟩

theorem setFrame_core {frame : Frame} (h : setFrame id frame m = .ok u m') :
    m'.core = m.core.setFrame id frame := by
  obtain rfl := modify_ok.1 h
  rfl

theorem link_core (h : link id ref m = .ok u m') :
    ∃ frame, m.core.frames.find? id = some frame ∧
      m'.core = m.core.setFrame id { frame with owners := frame.owners ++ [ref] } := by
  obtain ⟨frame, _, h₁, h⟩ := bind_ok.1 h
  obtain ⟨hf, rfl⟩ := frame_core h₁
  exact ⟨frame, hf, setFrame_core h⟩

theorem unlink_core (h : unlink id ref m = .ok u m') :
    ∃ frame, m.core.frames.find? id = some frame ∧ m'.core = m.core.disown id frame ref := by
  obtain ⟨frame, _, h₁, h⟩ := bind_ok.1 h
  obtain ⟨hf, rfl⟩ := frame_core h₁
  refine ⟨frame, hf, ?_⟩
  unfold Core.disown
  split at h
  · next he =>
      obtain ⟨_, m₁, h₂, h⟩ := bind_ok.1 h
      obtain rfl := modify_ok.1 h₂
      rw [emit_core h, if_pos he]
      rfl
  · next he =>
      rw [setFrame_core h, if_neg he]

/-- A victim gives up its frame, now that its contents are saved. The frame is left clear. -/
def Victim.GivesUp (v : Victim) (c c' : Core) : Prop :=
  v.Stands c ∧ ∃ kind c₁,
    c.Saves (c.memory.read v.phys) (v.page.entryRef v.ref) v.page.kind kind c₁ ∧
      c' = (((c₁.unmap (v.page.entryRef v.ref)).setPage v.ref
        { v.page with kind, frame := none, cow := false }).setFrame v.id ⟨v.phys, []⟩).write v.phys
          PageBytes.zero

namespace Victim.GivesUp

variable {v : Victim} {c c' : Core}

theorem step (h : v.GivesUp c c') : Step c [] c' := by
  obtain ⟨⟨found, owned⟩, kind, c₁, saves, rfl⟩ := h
  exact .evict found owned saves

theorem free (h : v.GivesUp c c') : c'.frames.find? v.id = some ⟨v.phys, []⟩ := by
  obtain ⟨-, kind, c₁, -, rfl⟩ := h
  exact FrameTable.find?_update_self

theorem spares (h : v.GivesUp c c') (hs : c.Sound) : c.Spares c' v.id := by
  obtain ⟨⟨found, owned⟩, kind, c₁, saves, rfl⟩ := h
  obtain ⟨swap, files, rfl⟩ := saves.core_eq
  refine ⟨fun r p hp hmany => ?_, fun i f hf hmany => ?_, fun i hi => ?_⟩
  · have hr : r ≠ v.ref := by
      rintro rfl
      rw [found] at hp
      cases hp
      exact hmany v.id _ (hs.victim found owned) owned rfl
    exact (Table.find?_insert_of_ne hr).trans hp
  · have hi : i ≠ v.id := by
      rintro rfl
      rw [owned] at hf
      cases hf
      exact hmany rfl
    exact (FrameTable.find?_update_of_ne hi).trans hf
  · exact FrameTable.find?_update_of_ne hi

end Victim.GivesUp

theorem evictVictim_parts {v : Victim} {done : Bool} (hv : v.Stands m.core)
    (h : evictVictim v m = .ok done m') :
    (done = true ∧ v.GivesUp m.core m'.core) ∨
      (done = false ∧ ∃ files, m'.core = { m.core with files } ∧ Steps m.core [] { m.core with files }) := by
  obtain ⟨_, m₁, h₁, h⟩ := bind_ok.1 h
  obtain ⟨got, m₂, h₂, h⟩ := bind_ok.1 h
  rw [← emit_core h₁] at hv ⊢
  rcases PageKind.save_core h₂ with ⟨kind, c₁, rfl, saves, unmapped⟩ | ⟨rfl, failed⟩
  · obtain ⟨_, m₃, h₃, h⟩ := bind_ok.1 h
    obtain ⟨_, m₄, h₄, h⟩ := bind_ok.1 h
    obtain ⟨_, m₅, h₅, h⟩ := bind_ok.1 h
    obtain ⟨_, m₆, h₆, h⟩ := bind_ok.1 h
    obtain ⟨_, h₇, rfl⟩ := bind_pure_ok.1 h
    refine .inl ⟨rfl, hv, kind, c₁, saves, ?_⟩
    rw [emit_core h₇, writePhys_core h₆, setFrame_core h₅, setPage_core h₄, clearMapping_core h₃,
      unmapped]
  · obtain ⟨_, h₃, rfl⟩ := bind_pure_ok.1 h
    rw [emit_core h₃]
    rcases failed with same | ⟨backing, moved, kind, dirty, taken, short, spoiled⟩
    · exact .inr ⟨rfl, m₁.core.files, same, .refl _⟩
    · exact .inr ⟨rfl, _, spoiled, (Step.spoil hv.1 kind hv.2 dirty taken short).steps⟩

theorem evictVictim_steps {v : Victim} {done : Bool} (hv : v.Stands m.core)
    (h : evictVictim v m = .ok done m') : Steps m.core [] m'.core := by
  rcases evictVictim_parts hv h with ⟨-, gives⟩ | ⟨-, files, hm', run⟩
  · exact gives.step.steps
  · exact hm' ▸ run

theorem evictFirst_parts {vs : List Victim} {got : Option FrameId} (hvs : ∀ v ∈ vs, v.Stands m.core)
    (h : evictFirst vs m = .ok got m') : ∃ files, Steps m.core [] { m.core with files } ∧
      (got = none ∧ m'.core = { m.core with files } ∨
        ∃ v ∈ vs, got = some v.id ∧ v.GivesUp { m.core with files } m'.core) := by
  induction vs generalizing m with
  | nil =>
      obtain ⟨rfl, rfl⟩ := pure_ok.1 h
      exact ⟨m.core.files, .refl _, .inl ⟨rfl, rfl⟩⟩
  | cons v rest ih =>
      obtain ⟨done, m₁, h₁, h⟩ := bind_ok.1 h
      rcases evictVictim_parts (hvs v List.mem_cons_self) h₁ with ⟨rfl, gives⟩ | ⟨rfl, files, hm₁, run⟩
      · obtain ⟨rfl, rfl⟩ := pure_ok.1 h
        exact ⟨m.core.files, .refl _, .inr ⟨v, List.mem_cons_self, rfl, gives⟩⟩
      · have stand : ∀ w ∈ rest, w.Stands m₁.core := by
          rw [hm₁]
          exact fun w hw => hvs w (List.mem_cons_of_mem v hw)
        have hrest := ih stand h
        rw [hm₁] at hrest
        obtain ⟨files', run', ⟨rfl, hm'⟩ | ⟨w, hw, hgot, gives⟩⟩ := hrest
        · exact ⟨files', run.trans run', .inl ⟨rfl, hm'⟩⟩
        · exact ⟨files', run.trans run', .inr ⟨w, List.mem_cons_of_mem v hw, hgot, gives⟩⟩

theorem allocateFrame_parts (h : allocateFrame m = .ok id m') :
    (∃ phys memory console, m.memory.acquire? = some (phys, memory) ∧
      id = (m.frames.add ⟨phys, []⟩).1 ∧
        m' = { m with memory, frames := (m.frames.add ⟨phys, []⟩).2, console }) ∨
      (m.memory.acquire? = none ∧ evict m = .ok (some id) m') := by
  replace h := bind_get_ok.1 h
  cases htaken : m.memory.acquire? with
  | some taken =>
      obtain ⟨phys, memory⟩ := taken
      simp only [htaken] at h
      obtain ⟨_, m₁, h₁, h⟩ := bind_ok.1 h
      obtain rfl := set_ok.1 h₁
      obtain ⟨_, h₂, rfl⟩ := bind_pure_ok.1 h
      exact .inl ⟨phys, memory, _, rfl, rfl, (emit_ok.1 h₂).symm⟩
  | none =>
      simp only [htaken] at h
      obtain ⟨got, m₁, h₁, h⟩ := bind_ok.1 h
      cases got with
      | some new =>
          obtain ⟨rfl, rfl⟩ := pure_ok.1 h
          exact .inr ⟨rfl, h₁⟩
      | none =>
          obtain ⟨_, _, -, h⟩ := bind_ok.1 h
          obtain ⟨_, _, -, h⟩ := bind_ok.1 h
          exact (throw_ok.1 h).elim

theorem evict_parts (h : evict m = .ok (some id) m') : ∃ files v, v ∈ m.victims ∧ id = v.id ∧
    Steps m.core [] { m.core with files } ∧ v.GivesUp { m.core with files } m'.core := by
  replace h := bind_get_ok.1 h
  obtain ⟨files, run, ⟨had, -⟩ | ⟨v, hv, hid, gives⟩⟩ :=
    evictFirst_parts (fun v hv => Machine.victims_stand hv) h
  · exact nomatch had
  · exact ⟨files, v, hv, Option.some.inj hid, run, gives⟩

theorem allocateFrame_core (hs : m.core.Sound) (h : allocateFrame m = .ok id m') :
    Steps m.core [] m'.core ∧ (∃ phys, m'.core.frames.find? id = some ⟨phys, []⟩) ∧
      m.core.Spares m'.core id := by
  rcases allocateFrame_parts h with ⟨phys, memory, console, taken, rfl, rfl⟩ | ⟨-, h⟩
  · have hstep : Step m.core [] { m.core with memory, frames := (m.core.frames.add ⟨phys, []⟩).2 } :=
      .acquire taken
    obtain ⟨-, hnew, hfind, -⟩ := hs.add_frame ⟨phys, []⟩
    refine ⟨hstep.steps, ⟨phys, ?_⟩, fun _ _ hp _ => hp, fun i f hf _ => ?_, fun i hi => ?_⟩
    · exact (congrFun hfind _).trans (Function.update_self _ _ _)
    · refine (congrFun hfind i).trans ((Function.update_of_ne ?_ _ _).trans hf)
      rintro rfl
      rw [hnew] at hf
      exact nomatch hf
    · exact (congrFun hfind i).trans (Function.update_of_ne hi _ _)
  · obtain ⟨files, v, -, rfl, run, gives⟩ := evict_parts h
    have before : m.core.Spares { m.core with files } v.id := .of_eq rfl rfl
    exact ⟨run.tail gives.step, ⟨v.phys, gives.free⟩, before.trans hs (gives.spares (run.sound hs))⟩

namespace Core

variable {c c' c₁ c₂ : Core} {frame : Frame} {mapping : Mapping} {bytes bytes' : PageBytes}
  {kind kind' : PageKind} {deeds : List Deed}

theorem Produces.apart {init : Initializer} {r : PageBytes × Bool}
    (h : Produces ((c.setFrame id frame).map entry mapping) bytes init r c₂) :
    ∃ c₁, Produces c bytes init r c₁ ∧ c₂ = (c₁.setFrame id frame).map entry mapping := by
  cases h with
  | segment got_of => exact ⟨c, .segment got_of, rfl⟩
  | program found => exact ⟨_, .program found, rfl⟩
  | missing absent => exact ⟨c, .missing absent, rfl⟩
  | alwaysFail => exact ⟨c, .alwaysFail, rfl⟩

theorem Fills.apart
    (h : Fills ((c.setFrame id frame).map entry mapping) ref bytes kind kind' bytes' c₂ deeds) :
    ∃ c₁, Fills c ref bytes kind kind' bytes' c₁ deeds ∧
      c₂ = (c₁.setFrame id frame).map entry mapping := by
  cases h with
  | zero => exact ⟨c, .zero, rfl⟩
  | slot stored freed => exact ⟨_, .slot stored freed, rfl⟩
  | file got_of => exact ⟨c, .file got_of, rfl⟩
  | newAnon => exact ⟨c, .newAnon, rfl⟩
  | newFile got_of => exact ⟨c, .newFile got_of, rfl⟩
  | made made =>
      obtain ⟨c₁, hc₁, rfl⟩ := made.apart
      exact ⟨c₁, .made hc₁, rfl⟩

theorem Fills.settles (h : Fills c ref bytes kind kind' bytes' c₁ deeds) :
    (∀ d ∈ deeds, d.Settles ref) ∧ (kind.isUninit = false → deeds = []) := by
  cases h with
  | zero => exact ⟨nofun, fun _ => rfl⟩
  | slot => exact ⟨nofun, fun _ => rfl⟩
  | file => exact ⟨nofun, fun _ => rfl⟩
  | newAnon => exact ⟨fun d hd => by rw [List.mem_singleton.1 hd]; rfl, nofun⟩
  | newFile => exact ⟨fun d hd => by rw [List.mem_singleton.1 hd]; rfl, nofun⟩
  | made => exact ⟨fun d hd => by rw [List.mem_singleton.1 hd]; rfl, nofun⟩

theorem disown_setFrame {phys : PhysPage} (c : Core) (id : FrameId) (ref : PageRef)
    (pages : Table PageRef Page) (mappings : Table PageRef Mapping) :
    disown { c.setFrame id ⟨phys, [ref]⟩ with pages, mappings } id ⟨phys, [ref]⟩ ref =
      { c.giveBack id phys with pages, mappings } := by
  have hnone : ([ref].filter (· ≠ ref)).isEmpty = true := by
    rw [Sound.filter_self]
    rfl
  unfold disown
  rw [if_pos hnone]
  simp only [setFrame, giveBack, FrameTable.update, FrameTable.remove, Table.erase_insert]

end Core

/-- How mapping and filling a page may end, when its frame was just linked to it. -/
inductive Core.MapsAndFills (c : Core) (ref : PageRef) (page : Page) (id : FrameId)
    (phys : PhysPage) : PageKind × Bool → Core → List Deed → Prop where
  | filled {kind : PageKind} {bytes : PageBytes} {c₁ : Core} {deeds : List Deed}
      (fills : c.Fills ref (c.memory.read phys) page.kind kind bytes c₁ deeds) :
      MapsAndFills c ref page id phys (kind, true) (((c₁.setFrame id ⟨phys, [ref]⟩).map
        (page.entryRef ref) ⟨phys, page.writable, false⟩).write phys bytes) deeds
  | refused {k : Nat} (refused : c.grants page.table k = false) :
      MapsAndFills c ref page id phys (page.kind, false) (c.setFrame id ⟨phys, [ref]⟩) []
  | failed {target : PageTarget} {init kept : Initializer} {bytes : PageBytes} {c₁ : Core}
      (kind : page.kind = .uninit target (some init))
      (made : c.Produces (c.memory.read phys) init (bytes, false) c₁) (kept_of : init.Kept kept) :
      MapsAndFills c ref page id phys (.uninit target (some kept), false)
        (((c₁.setFrame id ⟨phys, [ref]⟩).map (page.entryRef ref)
          ⟨phys, page.writable, false⟩).write phys bytes) [.fail ref kept]

theorem mapAndFill_core {c : Core} {phys : PhysPage} {r : PageKind × Bool}
    (hm : m.core = c.setFrame id ⟨phys, [ref]⟩) (h : mapAndFill ref page phys m = .ok r m') :
    ∃ ds, c.MapsAndFills ref page id phys r m'.core ds := by
  rcases mapAndFill_parts h with ⟨m₁, m₂, granted, told, done⟩ | ⟨rfl, refused⟩
  · have hm₂ := (emit_core told).trans (install_granted granted)
    rw [hm] at hm₂
    obtain ⟨kind, filled⟩ := r
    rcases PageKind.fill_core ref done with ⟨rfl, bytes, c₂, ds, hfills, hm'⟩ |
      ⟨rfl, target, init, kept, bytes, c₂, hkind, rfl, hkept, hmade, hm'⟩
    · rw [hm₂] at hfills
      obtain ⟨c₁, hfills', rfl⟩ := hfills.apart
      rw [hm']
      exact ⟨ds, .filled hfills'⟩
    · rw [hm₂] at hmade
      obtain ⟨c₁, hmade', rfl⟩ := hmade.apart
      rw [hm']
      exact ⟨_, .failed hkind hmade' hkept⟩
  · obtain ⟨hm', k, hno⟩ := install_refused refused
    rw [hm', hm]
    rw [hm] at hno
    exact ⟨[], .refused hno⟩

theorem giveUp_core (c : Core) (phys : PhysPage) (mappings : Table PageRef Mapping) {done : Bool}
    {kind : PageKind} (hm : m.core = { c.setFrame id ⟨phys, [ref]⟩ with mappings })
    (he : mappings.erase (page.entryRef ref) = c.mappings.erase (page.entryRef ref))
    (h : (do
      emit (.claimFailed ref.va)
      clearMapping (page.entryRef ref)
      setPage ref { page with frame := none, cow := false, kind }
      unlink id ref
      pure false) m = .ok done m') :
    m'.core = ((c.giveBack id phys).unmap (page.entryRef ref)).setPage ref
      { page with frame := none, cow := false, kind } := by
  obtain ⟨_, m₁, h₁, h⟩ := bind_ok.1 h
  obtain ⟨_, m₂, h₂, h⟩ := bind_ok.1 h
  obtain ⟨_, m₃, h₃, h⟩ := bind_ok.1 h
  obtain ⟨_, h₄, rfl⟩ := bind_pure_ok.1 h
  have hm₃ : m₃.core = { c.setFrame id ⟨phys, [ref]⟩ with
      pages := c.pages.insert ref { page with frame := none, cow := false, kind }
      mappings := c.mappings.erase (page.entryRef ref) } := by
    rw [setPage_core h₃, clearMapping_core h₂, emit_core h₁, hm, ← he]
    rfl
  obtain ⟨frame, hframe, hm₄⟩ := unlink_core h₄
  have hlinked : m₃.core.frames.find? id = some ⟨phys, [ref]⟩ := by
    rw [hm₃]
    exact FrameTable.find?_update_self
  rw [hlinked] at hframe
  cases hframe
  rw [hm₄, hm₃, disown_setFrame]
  rfl

def Core.KeepsShared (c c' : Core) (ref : PageRef) : Prop :=
  ∀ r page id frame, r ≠ ref → c.pages.find? r = some page → page.frame = some id →
    c.frames.find? id = some frame → frame.owners.length ≠ 1 → c'.pages.find? r = some page

theorem Core.Spares.keepsShared {c c₁ c' : Core} {p : Page} (h : c.Spares c₁ id)
    (hp : c'.pages = c₁.pages.insert ref p) : c.KeepsShared c' ref := by
  intro r page id frame hr found resident owned many
  have hpage := h.page r page found fun i f hi hf => by
    rw [resident] at hi
    cases hi
    rw [owned] at hf
    cases hf
    exact many
  rw [hp]
  exact (Table.find?_insert_of_ne hr).trans hpage

/-- How claiming a page ends, when a frame was taken for it. -/
inductive Core.Claims (c : Core) (ref : PageRef) (page : Page) (id : FrameId) :
    PageKind × Bool → List Deed → Core → Prop where
  | filled {kind : PageKind} {bytes : PageBytes} {phys : PhysPage} {c₁ : Core} {deeds : List Deed}
      (free : c.frames.find? id = some ⟨phys, []⟩)
      (fills : c.Fills ref (c.memory.read phys) page.kind kind bytes c₁ deeds) :
      Claims c ref page id (kind, true) deeds ((((c₁.setFrame id ⟨phys, [ref]⟩).map
        (page.entryRef ref) ⟨phys, page.writable, false⟩).write phys bytes).stamp ref
          { page with frame := some id, cow := false, kind })
  | refused {phys : PhysPage} {k : Nat} (free : c.frames.find? id = some ⟨phys, []⟩)
      (refused : c.grants page.table k = false) :
      Claims c ref page id (page.kind, false) [] (((c.giveBack id phys).unmap
        (page.entryRef ref)).setPage ref { page with frame := none, cow := false })
  | failed {target : PageTarget} {init kept : Initializer} {bytes : PageBytes} {phys : PhysPage}
      {c₁ : Core} (free : c.frames.find? id = some ⟨phys, []⟩)
      (kind : page.kind = .uninit target (some init))
      (made : c.Produces (c.memory.read phys) init (bytes, false) c₁) (kept_of : init.Kept kept) :
      Claims c ref page id (.uninit target (some kept), false) [.fail ref kept]
        ((((c₁.write phys bytes).giveBack id phys).unmap (page.entryRef ref)).setPage ref
          { page with frame := none, cow := false, kind := .uninit target (some kept) })

namespace Core.Claims

variable {c c' : Core} {r : PageKind × Bool} {ds : List Deed}

theorem step (h : c.Claims ref page id r ds c') (found : c.pages.find? ref = some page)
    (away : page.frame = none) : Step c ds c' := by
  cases h with
  | filled free fills => exact .fill found away free fills
  | refused free refused => exact .refuse found away free refused
  | failed free kind made kept => exact .fail found away kind free made kept

theorem settles (h : c.Claims ref page id r ds c') :
    (∀ d ∈ ds, d.Settles ref) ∧ (page.kind.isUninit = false → ds = []) := by
  cases h with
  | filled free fills => exact fills.settles
  | refused => exact ⟨nofun, fun _ => rfl⟩
  | failed free kind =>
      refine ⟨fun d hd => ?_, fun hu => ?_⟩
      · rw [List.mem_singleton.1 hd]
        rfl
      · rw [kind] at hu
        exact nomatch hu

theorem pages (h : c.Claims ref page id r ds c') :
    ∃ p, p.kind = r.1 ∧ c'.pages = c.pages.insert ref p := by
  cases h with
  | filled free fills =>
      obtain ⟨swap, programs, rfl, -⟩ := fills.core_eq
      exact ⟨_, rfl, rfl⟩
  | refused => exact ⟨{ page with frame := none, cow := false }, rfl, rfl⟩
  | failed free kind made =>
      obtain ⟨programs, rfl, -⟩ := made.core_eq
      exact ⟨_, rfl, rfl⟩

theorem frames (h : c.Claims ref page id r ds c') :
    ∃ left, c'.frames.find? = Function.update c.frames.find? id left ∧
      ∀ frame, left = some frame → frame.owners = [ref] := by
  cases h with
  | filled free fills =>
      obtain ⟨swap, programs, rfl, -⟩ := fills.core_eq
      exact ⟨_, FrameTable.find?_update_eq _ _ _, fun frame h => by cases h; rfl⟩
  | refused => exact ⟨none, FrameTable.find?_remove_eq _ _, nofun⟩
  | failed free kind made =>
      obtain ⟨programs, rfl, -⟩ := made.core_eq
      exact ⟨none, FrameTable.find?_remove_eq _ _, nofun⟩

end Core.Claims

/-- A page is claimed with a frame that is taken first; then it is linked, mapped and filled. -/
inductive Claimed (m : Machine) (ref : PageRef) (page : Page) (done : Bool) (m' : Machine) : Prop where
  | intro {m₁ m₂ m₃ : Machine} {id : FrameId} {phys : PhysPage} {kind : PageKind} {ds : List Deed}
      (away : page.frame = none) (taken : allocateFrame m = .ok id m₁)
      (spares : m.core.Spares m₁.core id) (linked : m₂.core = m₁.core.setFrame id ⟨phys, [ref]⟩)
      (link_call : link id ref m₁ = .ok ⟨⟩ m₂)
      (filled : mapAndFill ref page phys m₂ = .ok (kind, done) m₃)
      (claims : m₁.core.Claims ref page id (kind, done) ds m'.core)
      (left : m'.files = m₃.files ∧ m'.programs = m₃.programs)

theorem Core.Spares.found_away {c c' : Core} (h : c.Spares c' id)
    (found : c.pages.find? ref = some page) (away : page.frame = none) :
    c'.pages.find? ref = some page :=
  h.page ref page found fun i frame hi => by
    rw [away] at hi
    exact nomatch hi

theorem claimVacant_parts {done : Bool} (h : claimVacant ref page m = .ok done m') :
    page.frame = none ∧ ∃ id m₁ phys m₂ kind m₃, allocateFrame m = .ok id m₁ ∧
      physPage id m₁ = .ok phys m₁ ∧ link id ref m₁ = .ok ⟨⟩ m₂ ∧
      mapAndFill ref page phys m₂ = .ok (kind, done) m₃ ∧
      (done = true → ∃ stamped m₄, touch ref { page with frame := some id, cow := false, kind } m₃ =
        .ok stamped m₄ ∧ emit (.claimed ref.va id) m₄ = .ok ⟨⟩ m') ∧
      (done = false → (do
        emit (.claimFailed ref.va)
        clearMapping (page.entryRef ref)
        setPage ref { page with frame := none, cow := false, kind }
        unlink id ref
        pure false) m₃ = .ok false m') := by
  cases away : page.frame with
  | some id =>
      simp only [claimVacant, away] at h
      exact (throw_ok.1 h).elim
  | none =>
      simp only [claimVacant, away] at h
      obtain ⟨id, m₁, taken, h⟩ := bind_ok.1 h
      obtain ⟨phys, _, phys_of, h⟩ := bind_ok.1 h
      obtain ⟨_, -, -, rfl⟩ := physPage_core phys_of
      obtain ⟨_, m₂, linked, h⟩ := bind_ok.1 h
      obtain ⟨⟨kind, filled⟩, m₃, mapped, h⟩ := bind_ok.1 h
      cases filled with
      | true =>
          obtain ⟨stamped, m₄, touched, h⟩ := bind_ok.1 h
          obtain ⟨_, told, rfl⟩ := bind_pure_ok.1 h
          exact ⟨rfl, id, m₁, phys, m₂, kind, m₃, taken, phys_of, linked, mapped,
            fun _ => ⟨stamped, m₄, touched, told⟩, nofun⟩
      | false =>
          have given := h
          obtain ⟨_, _, -, h⟩ := bind_ok.1 h
          obtain ⟨_, _, -, h⟩ := bind_ok.1 h
          obtain ⟨_, _, -, h⟩ := bind_ok.1 h
          obtain ⟨_, _, -, h⟩ := bind_ok.1 h
          obtain ⟨rfl, -⟩ := pure_ok.1 h
          exact ⟨rfl, id, m₁, phys, m₂, kind, m₃, taken, phys_of, linked, mapped, nofun, fun _ => given⟩

theorem claimVacant_claimed {done : Bool} (hs : m.core.Sound)
    (h : claimVacant ref page m = .ok done m') : Claimed m ref page done m' := by
  obtain ⟨away, id, m₁, phys, m₂, kind, m₃, h₁, h₂, h₃, h₄, ended, given⟩ := claimVacant_parts h
  obtain ⟨hsteps, ⟨taken, free⟩, hspares⟩ := allocateFrame_core hs h₁
  obtain ⟨frame, hframe, hphys, -⟩ := physPage_core h₂
  cases free.symm.trans hframe
  obtain rfl : phys = taken := hphys
  obtain ⟨frame, hframe, hm₂⟩ := link_core h₃
  cases free.symm.trans hframe
  change m₂.core = m₁.core.setFrame id ⟨phys, [ref]⟩ at hm₂
  obtain ⟨ds, hmaps⟩ := mapAndFill_core hm₂ h₄
  generalize hc₃ : m₃.core = c₃ at hmaps
  have left (hdone : done = false) : m'.files = m₃.files ∧ m'.programs = m₃.programs :=
    ⟨((emit_files _).bind fun _ => (clearMapping_keeps _).bind fun _ => (setPage_keeps _ _).bind fun _ =>
        (unlink_keeps _ _).bind fun _ => .pure _) (given hdone),
      ((emit_keeps _ rfl).bind fun _ => (clearMapping_keeps _).bind fun _ =>
        (setPage_keeps _ _).bind fun _ => (unlink_keeps _ _).bind fun _ => .pure _) (given hdone)⟩
  -- the contents are there, the page table refused the entry, or the contents could not be made
  cases hmaps with
  | filled fills =>
      obtain ⟨_, m₄, h₅, h₆⟩ := ended rfl
      have hclaims := Core.Claims.filled free fills
      rw [← hc₃, ← (touch_core h₅).2, ← emit_core h₆] at hclaims
      exact .intro away h₁ hspares hm₂ h₃ h₄ hclaims
        ⟨(emit_files _ h₆).trans (touch_keeps _ _ h₅), (emit_keeps _ rfl h₆).trans (touch_keeps _ _ h₅)⟩
  | refused refused =>
      have hclaims := @Core.Claims.refused _ ref page _ _ _ free refused
      rw [← giveUp_core m₁.core phys m₁.core.mappings hc₃ rfl (given rfl)] at hclaims
      exact .intro away h₁ hspares hm₂ h₃ h₄ hclaims (left rfl)
  | @failed _ _ _ bytes c₁ kind made kept =>
      have hclaims := @Core.Claims.failed _ ref _ _ _ _ _ _ _ _ free kind made kept
      rw [← giveUp_core (c₁.write phys bytes) phys _ hc₃ (Table.erase_insert _ _ _) (given rfl)]
        at hclaims
      exact .intro away h₁ hspares hm₂ h₃ h₄ hclaims (left rfl)

theorem claimVacant_core {done : Bool} (hs : m.core.Sound) (found : m.core.pages.find? ref = some page)
    (h : claimVacant ref page m = .ok done m') :
    ∃ ds, Steps m.core ds m'.core ∧ (∀ d ∈ ds, d.Settles ref) ∧
      (page.kind.isUninit = false → ds = []) ∧ m.core.KeepsShared m'.core ref := by
  obtain ⟨away, taken, spares, -, -, -, claims, -⟩ := claimVacant_claimed hs h
  have hsteps := (allocateFrame_core hs taken).1
  have hstep := claims.step (spares.found_away found away) away
  obtain ⟨p, -, hpages⟩ := claims.pages
  exact ⟨_, hsteps.trans hstep.steps, claims.settles.1, claims.settles.2, spares.keepsShared hpages⟩

theorem Core.diverge_mappings (c : Core) (ref : PageRef) (old : FrameId) (shared : Frame)
    (phys : PhysPage) : (c.diverge ref old shared phys).mappings = c.mappings ∧
      (c.diverge ref old shared phys).grants = c.grants := by
  obtain ⟨_, _, _, heq, -⟩ := c.diverge_eq ref old shared phys
  rw [heq]
  exact ⟨rfl, rfl⟩

theorem Core.diverge_free (c : Core) (ref : PageRef) (old : FrameId) (shared : Frame)
    (phys : PhysPage) {new : FrameId} (hne : new ≠ old) (free : c.frames.find? new = some ⟨phys, []⟩) :
    (c.diverge ref old shared phys).frames.find? new = some ⟨phys, []⟩ :=
  (disown_find?_of_ne hne).trans free

theorem Core.stamp_found (c : Core) (ref : PageRef) (page : Page) :
    (c.stamp ref page).pages.find? ref = some { page with lastAccess := c.clock + 1 } :=
  Table.find?_insert_self

theorem touch_step {page' : Page} (found : m.core.pages.find? ref = some page)
    (h : touch ref page m = .ok page' m') :
    Step m.core [] m'.core ∧ m'.core.pages.find? ref = some page' := by
  obtain ⟨rfl, hm'⟩ := touch_core h
  rw [hm']
  exact ⟨.touch found, Core.stamp_found _ _ _⟩

theorem remap_steps {done : Bool} {frame : Frame} (found : m.core.pages.find? ref = some page)
    (resident : page.frame = some id) (owned : m.core.frames.find? id = some frame)
    (h : remap (page.entryRef ref) frame.page page.mappedWritable m = .ok done m') :
    Steps m.core [] m'.core := by
  rcases remap_core h with ⟨-, hm'⟩ | ⟨-, hm', -⟩
  · rw [hm']
    exact (Step.remap found resident owned).steps
  · rw [hm']
    exact .refl _

/-- How a page parts from a frame that it shares, when a frame was taken for it: it comes to a copy of
its own, or to no frame at all if the page table refuses the entry. -/
inductive Core.Parts (c : Core) (ref : PageRef) (page : Page) (old new : FrameId) :
    Bool → List Deed → Core → Prop where
  | copied {shared : Frame} {phys : PhysPage} (owned : c.frames.find? old = some shared)
      (many : shared.owners.length ≠ 1) (free : c.frames.find? new = some ⟨phys, []⟩) :
      Parts c ref page old new true [] ((((c.diverge ref old shared phys).setFrame new
        ⟨phys, [ref]⟩).map (page.entryRef ref) ⟨phys, page.writable, c.dirty (page.entryRef ref)⟩).setPage
          ref { page with frame := some new, cow := false })
  | lost {shared : Frame} {phys : PhysPage} {k : Nat} (owned : c.frames.find? old = some shared)
      (many : shared.owners.length ≠ 1) (free : c.frames.find? new = some ⟨phys, []⟩)
      (refused : c.grants page.table k = false) :
      Parts c ref page old new false [.lose ref] ((((c.diverge ref old shared phys).giveBack new
        phys).unmap (page.entryRef ref)).setPage ref { page with frame := none, cow := false })

theorem Core.Parts.step {c c' : Core} {old new : FrameId} {done : Bool} {ds : List Deed}
    (h : c.Parts ref page old new done ds c') (found : c.pages.find? ref = some page)
    (resident : page.frame = some old) : Step c ds c' := by
  cases h with
  | copied owned many free => exact .copy found resident owned many free
  | lost owned many free refused => exact .lose found resident owned many free refused

theorem Core.Parts.loses {c c' : Core} {old new : FrameId} {done : Bool} {ds : List Deed}
    (h : c.Parts ref page old new done ds c') : ∀ d ∈ ds, d = .lose ref := by
  cases h with
  | copied => exact nofun
  | lost => exact fun d hd => List.mem_singleton.1 hd

/-- A page that is the only owner of its frame keeps it; any other parts from it, with a frame that is
taken once the page has its new time. -/
inductive Breaks (m : Machine) (ref : PageRef) (page : Page) (old : FrameId) (done : Bool)
    (m' : Machine) : Prop where
  | alone {frame : Frame} (owned : m.core.frames.find? old = some frame)
      (sole : frame.owners.length = 1) (run : Steps m.core [] m'.core)
      (same : m'.core.frames = m.core.frames)
  | parted {m₁ m₂ : Machine} {new : FrameId} {ds : List Deed}
      (touched : m₁ = { m with
        clock := m.clock + 1
        pages := m.pages.insert ref { page with lastAccess := m.clock + 1 } })
      (taken : allocateFrame m₁ = .ok new m₂)
      (found : m₂.core.pages.find? ref = some { page with lastAccess := m.core.clock + 1 })
      (parts : m₂.core.Parts ref { page with lastAccess := m.core.clock + 1 } old new done ds m'.core)

theorem breakSharing_parts {done : Bool} {old : FrameId}
    (h : breakSharing ref page old m = .ok done m') :
    ∃ page' m₁ shared, touch ref page m = .ok page' m₁ ∧ m₁.core.frames.find? old = some shared ∧
      (shared.owners.length = 1 → ∃ m₂ m₃, setPage ref { page' with cow := false } m₁ = .ok ⟨⟩ m₂ ∧
        emit (.exclusiveNow ref.va) m₂ = .ok ⟨⟩ m₃ ∧
        remap (page.entryRef ref) shared.page page'.writable m₃ = .ok done m') ∧
      (shared.owners.length ≠ 1 → ∃ new m₂ source target m₃ m₄ m₅, allocateFrame m₁ = .ok new m₂ ∧
        physPage old m₂ = .ok source m₂ ∧ physPage new m₂ = .ok target m₂ ∧
        writePhys target (m₂.core.memory.read source) m₂ = .ok ⟨⟩ m₃ ∧
        unlink old ref m₃ = .ok ⟨⟩ m₄ ∧ link new ref m₄ = .ok ⟨⟩ m₅ ∧
        (do
          setPage ref { page' with frame := some new, cow := false }
          emit (.copied ref.va old new)
          if ← remap (page.entryRef ref) target page'.writable then
            pure true
          else
            clearMapping (page.entryRef ref)
            setPage ref { page' with frame := none, cow := false }
            unlink new ref
            pure false) m₅ = .ok done m') := by
  obtain ⟨page', m₁, touched, h⟩ := bind_ok.1 h
  obtain ⟨_, _, h₁, h⟩ := bind_ok.1 h
  obtain ⟨shared, owned, rfl, rfl⟩ := refCount_core h₁
  refine ⟨page', m₁, shared, touched, owned, fun sole => ?_, fun many => ?_⟩
  · rw [if_pos sole] at h
    obtain ⟨_, m₂, h₂, h⟩ := bind_ok.1 h
    obtain ⟨_, m₃, h₃, h⟩ := bind_ok.1 h
    obtain ⟨_, _, h₄, h⟩ := bind_ok.1 h
    obtain ⟨shared', owned', rfl, rfl⟩ := physPage_core h₄
    rw [emit_core h₃, setPage_core h₂] at owned'
    cases Option.some.inj (owned.symm.trans owned')
    exact ⟨m₂, m₃, h₂, h₃, h⟩
  · rw [if_neg many] at h
    obtain ⟨new, m₂, taken, h⟩ := bind_ok.1 h
    obtain ⟨source, _, source_of, h⟩ := bind_ok.1 h
    obtain ⟨-, -, -, rfl⟩ := physPage_core source_of
    obtain ⟨target, _, target_of, h⟩ := bind_ok.1 h
    obtain ⟨-, -, -, rfl⟩ := physPage_core target_of
    obtain ⟨_, _, bytes_of, h⟩ := bind_ok.1 h
    obtain ⟨rfl, rfl⟩ := readPhys_core bytes_of
    obtain ⟨_, m₃, written, h⟩ := bind_ok.1 h
    obtain ⟨_, m₄, unlinked, h⟩ := bind_ok.1 h
    obtain ⟨_, m₅, linked, h⟩ := bind_ok.1 h
    exact ⟨new, m₂, source, target, m₃, m₄, m₅, taken, source_of, target_of, written, unlinked, linked, h⟩

theorem breakSharing_alone {done : Bool} {old : FrameId} {frame : Frame}
    (owned : m.core.frames.find? old = some frame) (sole : frame.owners.length = 1)
    (h : breakSharing ref page old m = .ok done m') : ∃ m₁ : Machine,
      m₁.core = (m.core.stamp ref page).setPage ref { page with
        lastAccess := m.core.clock + 1, cow := false } ∧
      remap (page.entryRef ref) frame.page page.writable m₁ = .ok done m' := by
  obtain ⟨page', m₁, shared, touched, owned', alone, -⟩ := breakSharing_parts h
  obtain ⟨rfl, hm₁⟩ := touch_core touched
  rw [hm₁] at owned'
  cases Option.some.inj (owned.symm.trans owned')
  obtain ⟨m₂, m₃, h₁, h₂, h₃⟩ := alone sole
  refine ⟨m₃, ?_, h₃⟩
  rw [emit_core h₂, setPage_core h₁, hm₁]

theorem Core.Steps.alone {c : Core} {old : FrameId} {frame : Frame}
    (found : c.pages.find? ref = some page) (resident : page.frame = some old)
    (owned : c.frames.find? old = some frame) (sole : frame.owners.length = 1) :
    Steps c [] ((c.stamp ref page).setPage ref { page with
      lastAccess := c.clock + 1, cow := false }) :=
  (Step.touch found).steps.trans (Step.own (c := c.stamp ref page) (Core.stamp_found _ _ _) resident
    owned sole).steps

theorem Breaks.of_alone {done : Bool} {old : FrameId} {frame : Frame}
    (found : m.core.pages.find? ref = some page) (resident : page.frame = some old)
    (owned : m.core.frames.find? old = some frame) (sole : frame.owners.length = 1)
    (h : breakSharing ref page old m = .ok done m') : Breaks m ref page old done m' := by
  obtain ⟨m₁, hm₁, remapped⟩ := breakSharing_alone owned sole h
  have hrun : Steps m.core [] m₁.core := hm₁ ▸ Core.Steps.alone found resident owned sole
  have found₁ : m₁.core.pages.find? ref =
      some { page with lastAccess := m.core.clock + 1, cow := false } := by
    rw [hm₁]
    exact Table.find?_insert_self
  have hwritable : Page.mappedWritable { page with lastAccess := m.core.clock + 1, cow := false } =
      page.writable := Bool.and_true _
  rw [← hwritable] at remapped
  have hframes : m'.core.frames = m.core.frames := by
    rcases remap_core remapped with ⟨-, hm'⟩ | ⟨-, hm', -⟩
    · rw [hm', hm₁]
      rfl
    · rw [hm', hm₁]
      rfl
  exact .alone owned sole (hrun.trans (remap_steps found₁ resident (hm₁ ▸ owned) remapped)) hframes

/-- The page is linked to its copy, and now its entry is set. A page table that refuses the entry leaves
the page without a frame: the old one is given up by then, and the new one goes back. -/
theorem remap_parts {c : Core} {old new : FrameId} {shared : Frame} {phys : PhysPage}
    {event : Event} {done : Bool} (owned : c.frames.find? old = some shared)
    (many : shared.owners.length ≠ 1) (free : c.frames.find? new = some ⟨phys, []⟩)
    (linked : m.core = (c.diverge ref old shared phys).setFrame new ⟨phys, [ref]⟩)
    (h : (do
      setPage ref { page with frame := some new, cow := false }
      emit event
      if ← remap (page.entryRef ref) phys page.writable then
        pure true
      else
        clearMapping (page.entryRef ref)
        setPage ref { page with frame := none, cow := false }
        unlink new ref
        pure false) m = .ok done m') : ∃ ds, c.Parts ref page old new done ds m'.core := by
  obtain ⟨_, m₁, h₁, h⟩ := bind_ok.1 h
  obtain ⟨_, m₂, h₂, h⟩ := bind_ok.1 h
  have hm₂ := (emit_core h₂).trans (setPage_core h₁)
  rw [linked] at hm₂
  obtain ⟨granted, m₃, h₃, h⟩ := bind_ok.1 h
  obtain ⟨hmappings, hgrants⟩ := Core.diverge_mappings c ref old shared phys
  -- either the entry stands and the page has its copy, or all that was done for the copy is undone
  rcases remap_core h₃ with ⟨rfl, hm₃⟩ | ⟨rfl, hm₃, k, hno⟩
  · obtain ⟨rfl, rfl⟩ := pure_ok.1 h
    have hdirty : m₂.core.dirty (page.entryRef ref) = c.dirty (page.entryRef ref) := by
      rw [hm₂]
      simp only [Core.dirty, Core.setPage, Core.setFrame, hmappings]
    rw [hdirty, hm₂] at hm₃
    rw [hm₃]
    exact ⟨[], .copied owned many free⟩
  · obtain ⟨_, m₄, h₄, h⟩ := bind_ok.1 h
    obtain ⟨_, m₅, h₅, h⟩ := bind_ok.1 h
    obtain ⟨_, h₆, rfl⟩ := bind_pure_ok.1 h
    have hrefused : c.grants page.table k = false := by
      rw [hm₂] at hno
      rw [← hgrants]
      exact hno
    have hm₅ : m₅.core = { (c.diverge ref old shared phys).setFrame new ⟨phys, [ref]⟩ with
        pages := (c.diverge ref old shared phys).pages.insert ref
          { page with frame := none, cow := false }
        mappings := (c.diverge ref old shared phys).mappings.erase (page.entryRef ref) } := by
      rw [setPage_core h₅, clearMapping_core h₄, hm₃, hm₂]
      simp only [Core.setPage, Core.unmap, Core.setFrame, Table.insert_insert]
    obtain ⟨frame, hframe, hm₆⟩ := unlink_core h₆
    rw [hm₅] at hframe hm₆
    have hlinked := (FrameTable.find?_update _ _ _ _).symm.trans hframe
    rw [if_pos rfl] at hlinked
    cases hlinked
    rw [Core.disown_setFrame] at hm₆
    rw [hm₆]
    exact ⟨[.lose ref], .lost owned many free hrefused⟩

theorem breakSharing_breaks {done : Bool} {old : FrameId} (hs : m.core.Sound)
    (found : m.core.pages.find? ref = some page) (resident : page.frame = some old)
    (h : breakSharing ref page old m = .ok done m') : Breaks m ref page old done m' := by
  obtain ⟨page', m₁, shared, touched, owned₁, -, copied⟩ := breakSharing_parts h
  obtain ⟨hpage', hm₁⟩ := touch_ok touched
  have owned : m.core.frames.find? old = some shared := by rw [← owned₁, hm₁]; rfl
  -- a page alone in its frame keeps it; any other takes a frame for a copy
  by_cases hone : shared.owners.length = 1
  · exact .of_alone found resident owned hone h
  · obtain ⟨new, m₂, source, target, m₃, m₄, m₅, taken, source_of, target_of, written, unlinked, linked,
      h⟩ := copied hone
    obtain ⟨hstamp, found₁⟩ := touch_step found touched
    have hs₁ := hstamp.sound hs
    have resident₁ : page'.frame = some old := by rw [hpage', ← resident]
    -- the search may evict a page, but never one whose frame has several owners
    obtain ⟨hsteps, ⟨phys, free⟩, hspares⟩ := allocateFrame_core hs₁ taken
    have owned₂ := hspares.frame old shared owned₁ hone
    have found₂ := hspares.page ref page' found₁ fun id frame hid hf => by
      cases Option.some.inj (resident₁.symm.trans hid)
      cases Option.some.inj (owned₁.symm.trans hf)
      exact hone
    have hne := (hsteps.sound hs₁).new_ne found₂ resident₁ free
    obtain ⟨frame, hframe, rfl, -⟩ := physPage_core source_of
    cases Option.some.inj (owned₂.symm.trans hframe)
    obtain ⟨frame, hframe, rfl, -⟩ := physPage_core target_of
    cases Option.some.inj (free.symm.trans hframe)
    obtain ⟨frame, hframe, hm₄⟩ := unlink_core unlinked
    rw [writePhys_core written] at hframe hm₄
    cases Option.some.inj (owned₂.symm.trans hframe)
    change m₄.core = m₂.core.diverge ref old shared phys at hm₄
    obtain ⟨frame, hframe, hm₅⟩ := link_core linked
    rw [hm₄] at hframe hm₅
    cases Option.some.inj ((Core.diverge_free m₂.core ref old shared phys hne free).symm.trans hframe)
    rw [hpage'] at hm₁ found₂ h
    obtain ⟨ds, parts⟩ := remap_parts owned₂ hone free hm₅ h
    exact .parted hm₁ taken found₂ parts

theorem breakSharing_core {done : Bool} {old : FrameId} (hs : m.core.Sound)
    (found : m.core.pages.find? ref = some page) (resident : page.frame = some old)
    (h : breakSharing ref page old m = .ok done m') :
    ∃ ds, Steps m.core ds m'.core ∧ ∀ d ∈ ds, d = .lose ref := by
  cases breakSharing_breaks hs found resident h with
  | alone _ _ run => exact ⟨[], run, nofun⟩
  | @parted m₁ m₂ _ ds touched taken found₂ parts =>
      have hstamp : Step m.core [] m₁.core := touched ▸ .touch found
      have hsteps := (allocateFrame_core (hstamp.sound hs) taken).1
      exact ⟨ds, (hstamp.steps.trans hsteps).trans (parts.step found₂ resident).steps, parts.loses⟩

end DemandPaging
