import DemandPaging.Proofs.Sound

/-!
Which pages the hardware lets users write. While a space is being given up, as after a copy that
failed halfway, its own pages may lack entries and may share the frames of pages that are writable.
-/

namespace DemandPaging

open Function (update)

/-- The pages of the spaces in `D` are about to go. -/
structure Guarded (D : SpaceId → Prop) (pages : PageRef → Option Page)
    (frames : FrameId → Option Frame) (mappings : PageRef → Option Mapping) : Prop where
  exclusive : ∀ ref entry page id frame, mappings ref = some entry → entry.writable = true →
    pages ref = some page → page.frame = some id → frames id = some frame →
      ∀ r ∈ frame.owners, r = ref ∨ D r.space
  entered : ∀ ref page id, pages ref = some page → page.frame = some id → ¬ D ref.space →
    ∃ entry, mappings ref = some entry

variable {D : SpaceId → Prop} {pages : PageRef → Option Page} {frames : FrameId → Option Frame}
  {mappings : PageRef → Option Mapping} {ref dst : PageRef} {page page' : Page} {id : FrameId}
  {frame : Frame} {phys : PhysPage}

theorem unowned_erased (free : ∀ r page, pages r = some page → page.frame ≠ some id) (ref : PageRef) :
    ∀ r page, update pages ref none r = some page → page.frame ≠ some id := by
  grind [Function.update_apply]

theorem kept_update {r : PageRef} {e : Mapping} (he : mappings r = some e) (ref : PageRef)
    (entry : Mapping) : ∃ e', update mappings ref (some entry) r = some e' := by
  rw [Function.update_apply]
  split
  · exact ⟨entry, rfl⟩
  · exact ⟨e, he⟩

theorem writable_update {r : PageRef} {e entry : Mapping}
    (he : update mappings ref (some entry) r = some e) (readonly : entry.writable = false)
    (hw : e.writable = true) : r ≠ ref ∧ mappings r = some e := by
  have hr : r ≠ ref := by
    rintro rfl
    rw [Function.update_self] at he
    rw [← Option.some.inj he, readonly] at hw
    exact nomatch hw
  exact ⟨hr, (Function.update_of_ne hr _ _).symm.trans he⟩

namespace Guarded

theorem replace (h : Guarded D pages frames mappings) (found : pages ref = some page)
    (same : page'.frame = page.frame) :
    Guarded D (update pages ref (some page')) frames mappings := by
  constructor <;> grind [Guarded, Function.update_apply]

theorem away (h : Guarded D pages frames mappings) {new : Option Page}
    (hnew : ∀ page', new = some page' → page'.frame = none) :
    Guarded D (update pages ref new) frames mappings := by
  constructor <;> grind [Guarded, Function.update_apply]

theorem setFrame (h : Guarded D pages frames mappings) {new : Option Frame}
    (old : ∀ r page, pages r = some page → page.frame ≠ some id) :
    Guarded D pages (update frames id new) mappings := by
  constructor <;> grind [Guarded, Function.update_apply]

theorem detach (h : Guarded D pages frames mappings) (owned : frames id = some frame)
    {new : Option Page} (hnew : ∀ page', new = some page' → page'.frame = none) {left : Option Frame}
    (hleft : ∀ frame', left = some frame' → ∀ r ∈ frame'.owners, r ∈ frame.owners) :
    Guarded D (update pages ref new) (update frames id left) (update mappings ref none) := by
  constructor <;> grind [Guarded, Function.update_apply]

theorem attach (h : Guarded D pages frames mappings)
    (free : ∀ r page, pages r = some page → page.frame ≠ some id)
    (resident : page'.frame = some id) {entry : Mapping} :
    Guarded D (update pages ref (some page')) (update frames id (some ⟨phys, [ref]⟩))
      (update mappings ref (some entry)) := by
  constructor
  · intro r e p i f he hw hp hi hf o ho
    -- the entry that is set leads to a frame with one owner; the others do not lead there
    by_cases hr : r = ref
    · subst hr
      rw [Function.update_self] at hp
      cases hp
      rw [resident] at hi
      cases hi
      rw [Function.update_self] at hf
      cases hf
      exact .inl (List.mem_singleton.1 ho)
    · rw [Function.update_of_ne hr] at he hp
      have hne : i ≠ id := by
        rintro rfl
        exact free r p hp hi
      rw [Function.update_of_ne hne] at hf
      exact h.exclusive r e p i f he hw hp hi hf o ho
  · intro r p i hp hi hD
    by_cases hr : r = ref
    · exact ⟨entry, by rw [hr, Function.update_self]⟩
    · rw [Function.update_of_ne hr] at hp ⊢
      exact h.entered r p i hp hi hD

theorem unmap (h : Guarded D pages frames mappings)
    (away : ∀ page, pages ref = some page → page.frame = none) :
    Guarded D pages frames (update mappings ref none) := by
  constructor <;> grind [Guarded, Function.update_apply]

theorem giveUp (h : Guarded D pages frames mappings)
    (free : ∀ r page, pages r = some page → page.frame ≠ some id)
    (found : pages ref = some page) (away : page.frame = none) (same : page'.frame = none) :
    Guarded D (update pages ref (some page')) (update frames id none) (update mappings ref none) := by
  have hback : Guarded D pages (update frames id none) mappings := h.setFrame free
  refine (hback.unmap fun p hp => ?_).away fun p hp => ?_
  · rw [found] at hp
    cases hp
    exact away
  · cases hp
    exact same

theorem move (h : Guarded D pages frames mappings) {new : FrameId} (owned : frames id = some frame)
    {left : Option Frame}
    (hleft : ∀ frame', left = some frame' → ∀ r ∈ frame'.owners, r ∈ frame.owners)
    (free : ∀ r page, pages r = some page → page.frame ≠ some new)
    (resident : page'.frame = some new) {entry : Mapping} :
    Guarded D (update pages ref (some page'))
      (update (update frames id left) new (some ⟨phys, [ref]⟩)) (update mappings ref (some entry)) := by
  have hgone : Guarded D (update pages ref none) (update frames id left)
      (update mappings ref none) :=
    h.detach owned (fun p hp => by cases hp) hleft
  have hmoved : Guarded D (update (update pages ref none) ref (some page'))
      (update (update frames id left) new (some ⟨phys, [ref]⟩))
      (update (update mappings ref none) ref (some entry)) :=
    hgone.attach (unowned_erased free ref) resident
  rwa [Function.update_idem, Function.update_idem] at hmoved

theorem lose (h : Guarded D pages frames mappings) {new : FrameId} (owned : frames id = some frame)
    {left : Option Frame}
    (hleft : ∀ frame', left = some frame' → ∀ r ∈ frame'.owners, r ∈ frame.owners)
    (free : ∀ r page, pages r = some page → page.frame ≠ some new) (away : page'.frame = none) :
    Guarded D (update pages ref (some page')) (update (update frames id left) new none)
      (update mappings ref none) := by
  have hgone : Guarded D (update pages ref (some page')) (update frames id left)
      (update mappings ref none) :=
    h.detach owned (fun p hp => Option.some.inj hp ▸ away) hleft
  refine hgone.setFrame fun r p hp => ?_
  by_cases hr : r = ref
  · rw [hr, Function.update_self] at hp
    rw [← Option.some.inj hp, away]
    exact nofun
  · rw [Function.update_of_ne hr] at hp
    exact free r p hp

theorem keepEntries (h : Guarded D pages frames mappings) {mappings' : PageRef → Option Mapping}
    (hold : ∀ r entry, mappings' r = some entry →
      ∃ entry', mappings r = some entry' ∧ (entry.writable = true → entry'.writable = true))
    (hkept : ∀ r entry, mappings r = some entry → ∃ entry', mappings' r = some entry') :
    Guarded D pages frames mappings' := by
  constructor
  · intro r e p i f he hw hp hi hf
    obtain ⟨e', he', hw'⟩ := hold r e he
    exact h.exclusive r e' p i f he' (hw' hw) hp hi hf
  · intro r p i hp hi hD
    obtain ⟨e, he⟩ := h.entered r p i hp hi hD
    exact hkept r e he

theorem map (h : Guarded D pages frames mappings) {entry : Mapping}
    (alone : entry.writable = true → ∀ page id frame, pages ref = some page →
      page.frame = some id → frames id = some frame → ∀ r ∈ frame.owners, r = ref ∨ D r.space) :
    Guarded D pages frames (update mappings ref (some entry)) := by
  constructor
  · grind [Guarded, Function.update_apply]
  · intro r p i hp hi hD
    by_cases hr : r = ref
    · exact ⟨entry, by rw [hr, Function.update_self]⟩
    · rw [Function.update_of_ne hr]
      exact h.entered r p i hp hi hD

theorem share (h : Guarded D pages frames mappings) {mappings' : PageRef → Option Mapping}
    (found : pages ref = some page) (resident : page.frame = some id)
    (owned : frames id = some frame) (member : ref ∈ frame.owners) (stays : ¬ D ref.space)
    (hwritable : ∀ r entry, mappings' r = some entry → entry.writable = true →
      mappings r = some entry ∧ r ≠ dst ∧ (r = ref → D dst.space))
    (hkept : ∀ r entry, mappings r = some entry → ∃ entry', mappings' r = some entry')
    (hdst : ¬ D dst.space → ∃ entry, mappings' dst = some entry) :
    Guarded D (update (update pages dst (some page')) ref (some { page with cow := true }))
      (update frames id (some { frame with owners := frame.owners ++ [dst] })) mappings' := by
  constructor
  · intro r e p i f he hw hp hi hf o ho
    obtain ⟨hold, hne, hhalf⟩ := hwritable r e he hw
    -- an entry that can be written to belongs to a page that was there before, with the same frame
    have hp' : ∃ p', pages r = some p' ∧ p'.frame = some i := by
      by_cases hr : r = ref
      · subst hr
        rw [Function.update_self] at hp
        cases hp
        exact ⟨page, found, hi⟩
      · rw [Function.update_of_ne hr, Function.update_of_ne hne] at hp
        exact ⟨p, hp, hi⟩
    obtain ⟨p', hp', hi'⟩ := hp'
    by_cases hid : i = id
    · subst hid
      rw [Function.update_self] at hf
      cases hf
      -- the page that lends its frame is an owner of it, and this is where its staying comes in
      have hr : ref = r := (h.exclusive r e p' i frame hold hw hp' hi' owned ref member).resolve_right
        stays
      rcases List.mem_append.1 ho with ho | ho
      · exact h.exclusive r e p' i frame hold hw hp' hi' owned o ho
      · rw [List.mem_singleton.1 ho]
        exact .inr (hhalf hr.symm)
    · rw [Function.update_of_ne hid] at hf
      exact h.exclusive r e p' i f hold hw hp' hi' hf o ho
  · intro r p i hp hi hD
    by_cases hr : r = ref
    · subst hr
      obtain ⟨e, he⟩ := h.entered r page id found resident hD
      exact hkept r e he
    · rw [Function.update_of_ne hr] at hp
      by_cases hd : r = dst
      · rw [hd]
        exact hdst (hd ▸ hD)
      · rw [Function.update_of_ne hd] at hp
        obtain ⟨e, he⟩ := h.entered r p i hp hi hD
        exact hkept r e he

theorem mono {E : SpaceId → Prop} (h : Guarded D pages frames mappings) (hDE : ∀ s, D s → E s) :
    Guarded E pages frames mappings := by
  constructor
  · intro r e p i f he hw hp hi hf o ho
    exact (h.exclusive r e p i f he hw hp hi hf o ho).imp_right (hDE _)
  · intro r p i hp hi hE
    exact h.entered r p i hp hi fun hD => hE (hDE _ hD)

end Guarded

namespace Core

def Guarded (D : SpaceId → Prop) (c : Core) : Prop :=
  DemandPaging.Guarded D c.pages.find? c.frames.find? c.mappings.find?

variable {c c' c₁ : Core} {deeds : List Deed}

theorem Guarded.of_find {c : Core} (hp : c.pages.find? = pages) (hf : c.frames.find? = frames)
    (hm : c.mappings.find? = mappings) (h : DemandPaging.Guarded D pages frames mappings) :
    c.Guarded D := by
  subst hp hf hm
  exact h

/-! One lemma for each kind of step that changes pages, frames or entries. -/

namespace Guarded

theorem stamp (h : c.Guarded D) (found : c.pages.find? ref = some page) :
    (c.stamp ref page).Guarded D :=
  .of_find (Table.find?_insert_eq _ _ _) rfl rfl (h.replace found rfl)

theorem add (h : c.Guarded D) (away : page.frame = none) : (c.setPage ref page).Guarded D :=
  .of_find (Table.find?_insert_eq _ _ _) rfl rfl
    (h.away fun _ hp => Option.some.inj hp ▸ away)

theorem acquire (h : c.Guarded D) (hs : c.Sound) (phys : PhysPage) {memory : Memory} :
    Guarded D { c with memory, frames := (c.frames.add ⟨phys, []⟩).2 } := by
  obtain ⟨-, -, hfind, hunknown⟩ := hs.add_frame ⟨phys, []⟩
  exact .of_find rfl hfind rfl (h.setFrame hunknown)

theorem evict (h : c.Guarded D) (hs : c.Sound) {bytes : PageBytes} {kind : PageKind}
    (found : c.pages.find? ref = some page) (owned : c.frames.find? id = some ⟨phys, [ref]⟩)
    (saved : c.Saves bytes (page.entryRef ref) page.kind kind c₁) :
    Guarded D ((((c₁.unmap (page.entryRef ref)).setPage ref
      { page with kind, frame := none, cow := false }).setFrame id ⟨phys, []⟩).write phys
        PageBytes.zero) := by
  obtain ⟨swap, files, rfl⟩ := saved.core_eq
  rw [hs.entryRef found]
  refine .of_find (Table.find?_insert_eq _ _ _) (FrameTable.find?_update_eq _ _ _)
    (Table.find?_erase_eq _ _) (h.detach owned (fun p hp => ?_) fun f hf r hr => ?_)
  · cases hp
    rfl
  · cases hf
    cases hr

theorem fill (h : c.Guarded D) (hs : c.Sound) {kind : PageKind} {old bytes : PageBytes}
    (found : c.pages.find? ref = some page) (free : c.frames.find? id = some ⟨phys, []⟩)
    (filled : c.Fills ref old page.kind kind bytes c₁ deeds) :
    Guarded D ((((c₁.setFrame id ⟨phys, [ref]⟩).map (page.entryRef ref)
      ⟨phys, page.writable, false⟩).write phys bytes).stamp ref
        { page with frame := some id, cow := false, kind }) := by
  obtain ⟨swap, programs, rfl, -⟩ := filled.core_eq
  rw [hs.entryRef found]
  exact .of_find (Table.find?_insert_eq _ _ _) (FrameTable.find?_update_eq _ _ _)
    (Table.find?_insert_eq _ _ _) (h.attach (hs.owned.unowned free) rfl)

theorem refuse (h : c.Guarded D) (hs : c.Sound) (found : c.pages.find? ref = some page)
    (away : page.frame = none) (free : c.frames.find? id = some ⟨phys, []⟩) :
    Guarded D (((c.giveBack id phys).unmap (page.entryRef ref)).setPage ref
      { page with frame := none, cow := false }) := by
  rw [hs.entryRef found]
  exact .of_find (Table.find?_insert_eq _ _ _) (FrameTable.find?_remove_eq _ _)
    (Table.find?_erase_eq _ _) (h.giveUp (hs.owned.unowned free) found away rfl)

theorem fail (h : c.Guarded D) (hs : c.Sound) {init : Initializer} {old bytes : PageBytes}
    {kind : PageKind} (found : c.pages.find? ref = some page) (away : page.frame = none)
    (free : c.frames.find? id = some ⟨phys, []⟩) (made : c.Produces old init (bytes, false) c₁) :
    Guarded D ((((c₁.write phys bytes).giveBack id phys).unmap (page.entryRef ref)).setPage ref
      { page with frame := none, cow := false, kind }) := by
  obtain ⟨programs, rfl, -⟩ := made.core_eq
  rw [hs.entryRef found]
  exact .of_find (Table.find?_insert_eq _ _ _) (FrameTable.find?_remove_eq _ _)
    (Table.find?_erase_eq _ _) (h.giveUp (hs.owned.unowned free) found away rfl)

theorem copy (h : c.Guarded D) (hs : c.Sound) {new : FrameId} {entry : Mapping}
    (found : c.pages.find? ref = some page) (owned : c.frames.find? id = some frame)
    (free : c.frames.find? new = some ⟨phys, []⟩) :
    Guarded D ((((c.diverge ref id frame phys).setFrame new ⟨phys, [ref]⟩).map
      (page.entryRef ref) entry).setPage ref { page with frame := some new, cow := false }) := by
  obtain ⟨frames, memory, left, heq, hframes, hleft, -⟩ := c.diverge_eq ref id frame phys
  rw [hs.entryRef found, heq]
  exact .of_find (Table.find?_insert_eq _ _ _) ((FrameTable.find?_update_eq _ _ _).trans
    (congrArg (update · new _) hframes)) (Table.find?_insert_eq _ _ _)
      (h.move owned (fun _ => hleft.subset) (hs.owned.unowned free) rfl)

theorem lose (h : c.Guarded D) (hs : c.Sound) {new : FrameId}
    (found : c.pages.find? ref = some page) (owned : c.frames.find? id = some frame)
    (free : c.frames.find? new = some ⟨phys, []⟩) :
    Guarded D ((((c.diverge ref id frame phys).giveBack new phys).unmap
      (page.entryRef ref)).setPage ref { page with frame := none, cow := false }) := by
  obtain ⟨frames, memory, left, heq, hframes, hleft, -⟩ := c.diverge_eq ref id frame phys
  rw [hs.entryRef found, heq]
  exact .of_find (Table.find?_insert_eq _ _ _) ((FrameTable.find?_remove_eq _ _).trans
    (congrArg (update · new _) hframes)) (Table.find?_erase_eq _ _)
      (DemandPaging.Guarded.lose h owned (fun _ => hleft.subset) (hs.owned.unowned free) rfl)

theorem own (h : c.Guarded D) (found : c.pages.find? ref = some page) :
    (c.setPage ref { page with cow := false }).Guarded D :=
  .of_find (Table.find?_insert_eq _ _ _) rfl rfl (h.replace found rfl)

theorem remap (h : c.Guarded D) (hs : c.Sound) {dirty : Bool}
    (found : c.pages.find? ref = some page) :
    Guarded D (c.map (page.entryRef ref) ⟨frame.page, page.mappedWritable, dirty⟩) := by
  rw [hs.entryRef found]
  -- the entry can be written to only if the page counts as not shared, and then it is alone
  refine .of_find rfl rfl (Table.find?_insert_eq _ _ _)
    (h.map fun hw p i f hp hi hf r hr => ?_)
  rw [found] at hp
  cases hp
  have hcow : page.cow = false := by
    rw [← Bool.not_eq_true']
    exact (Bool.and_eq_true_iff.1 hw).2
  rw [hs.owned.sole ref page i f found hi hcow hf] at hr
  exact .inl (List.mem_singleton.1 hr)

theorem share (h : c.Guarded D) (hs : c.Sound) {src : PageRef} (found : c.pages.find? src = some page)
    (resident : page.frame = some id) (owned : c.frames.find? id = some frame)
    (stays : ¬ D src.space) :
    Guarded D (((c.share src dst page id frame).mapShared (page.entryRef src) frame.page).map dst
      ⟨frame.page, false, false⟩) := by
  rw [hs.entryRef found]
  refine .of_find ((Table.find?_insert_eq _ _ _).trans
    (congrArg (update · src _) (Table.find?_insert_eq _ _ _))) (FrameTable.find?_update_eq _ _ _)
    ((Table.find?_insert_eq _ _ _).trans
      (congrArg (update · dst _) (Table.find?_insert_eq _ _ _))) ?_
  -- both entries are set for reading, so whatever can be written to is neither of the two
  refine DemandPaging.Guarded.share h found resident owned (hs.owner found resident owned) stays
    (fun r e he hw => ?_) (fun r e he => ?_) fun _ => ⟨_, Function.update_self _ _ _⟩
  · obtain ⟨hdst, he⟩ := writable_update he rfl hw
    obtain ⟨hsrc, he⟩ := writable_update he rfl hw
    exact ⟨he, hdst, fun hr => (hsrc hr).elim⟩
  · obtain ⟨e', he'⟩ := kept_update he src _
    exact kept_update he' dst _

theorem shareHalf (h : c.Guarded D) (hs : c.Sound) {src : PageRef}
    (found : c.pages.find? src = some page) (vacant : c.pages.find? dst = none)
    (resident : page.frame = some id) (owned : c.frames.find? id = some frame)
    (mapped : c' = c.share src dst page id frame ∨
      c' = (c.share src dst page id frame).mapShared (page.entryRef src) frame.page)
    (stays : ¬ D src.space) (goes : D dst.space) : c'.Guarded D := by
  have hdst (e : Mapping) : c.mappings.find? dst ≠ some e := by
    intro he
    obtain ⟨p, i, f, hp, -⟩ := hs.mapped dst e he
    rw [vacant] at hp
    cases hp
  have hpages : (c.share src dst page id frame).pages.find? = update (update c.pages.find? dst
      (some ⟨dst.space, page.writable, some id, page.lastAccess, true, page.kind.twin⟩)) src
        (some { page with cow := true }) :=
    (Table.find?_insert_eq _ src _).trans
      (congrArg (update · src _) (Table.find?_insert_eq c.pages dst _))
  have hold {r : PageRef} {e : Mapping} (he : c.mappings.find? r = some e) :
      c.mappings.find? r = some e ∧ r ≠ dst ∧ (r = src → D dst.space) :=
    ⟨he, fun hr => hdst e (hr ▸ he), fun _ => goes⟩
  have hmember := hs.owner found resident owned
  -- the copy has no entry, as its space is about to go; the source keeps the one that it had,
  -- which may be for writing, unless the page table took the one for reading
  rcases mapped with rfl | rfl
  · exact .of_find hpages (FrameTable.find?_update_eq _ _ _) rfl
      (DemandPaging.Guarded.share h found resident owned hmember stays
        (fun _ _ he _ => hold he) (fun _ e he => ⟨e, he⟩) fun hn => (hn goes).elim)
  · rw [hs.entryRef found]
    exact .of_find hpages (FrameTable.find?_update_eq _ _ _) (Table.find?_insert_eq _ _ _)
      (DemandPaging.Guarded.share h found resident owned hmember stays
        (fun _ _ he hw => hold (writable_update he rfl hw).2) (fun _ _ he => kept_update he src _)
        fun hn => (hn goes).elim)

theorem store (h : c.Guarded D) {bytes : PageBytes} : (c.store ref phys bytes).Guarded D := by
  -- the entry comes to be dirty and stays as it was otherwise
  have hentry (r : PageRef) := Table.find?_modify c.mappings ref r fun mapping =>
    { mapping with dirty := true }
  refine h.keepEntries (fun r e he => ?_) (fun r e he => ?_)
  · have hnew := (hentry r).symm.trans he
    split at hnew
    · obtain ⟨e', he', rfl⟩ := Option.map_eq_some_iff.1 hnew
      exact ⟨e', he', fun hw => hw⟩
    · exact ⟨e, hnew, fun hw => hw⟩
  · have hnew := hentry r
    rw [he, Option.map_some, ← apply_ite some] at hnew
    exact ⟨_, hnew⟩

theorem dropAway (h : c.Guarded D) {entry : PageRef}
    (disposed : Disposes { c with pages := c.pages.erase ref } page entry c₁) : c₁.Guarded D := by
  obtain ⟨swap, files, rfl⟩ := disposed.core_eq
  exact .of_find (Table.find?_erase_eq _ _) rfl rfl (h.away fun _ => nofun)

theorem drop (h : c.Guarded D) (hs : c.Sound) (found : c.pages.find? ref = some page)
    (owned : c.frames.find? id = some frame)
    (disposed : Disposes { c with pages := c.pages.erase ref } page (page.entryRef ref) c₁) :
    ((c₁.unmap (page.entryRef ref)).disown id frame ref).Guarded D := by
  obtain ⟨swap, files, rfl⟩ := disposed.core_eq
  obtain ⟨frames, memory, left, heq, hframes, hleft, -⟩ := disown_eq
    (Core.unmap { c with pages := c.pages.erase ref, swap, files } (page.entryRef ref)) id frame ref
  rw [heq, hs.entryRef found]
  exact .of_find (Table.find?_erase_eq _ _) hframes (Table.find?_erase_eq _ _)
    (h.detach owned (fun p hp => by cases hp) fun _ => hleft.subset)

end Guarded

theorem Step.guarded (h : Step c deeds c') (hs : c.Sound)
    (hD : ∀ src dst whole, .share src dst whole ∈ deeds →
      ¬ D src.space ∧ (whole = false → D dst.space)) (hg : c.Guarded D) : c'.Guarded D := by
  cases h with
  | touch found => exact hg.stamp found
  | learn => exact hg
  | chart => exact hg
  | add => exact hg.add rfl
  | acquire => exact hg.acquire hs _
  | spoil => exact hg
  | evict found owned saved => exact hg.evict hs found owned saved
  | fill found _ free filled => exact hg.fill hs found free filled
  | refuse found away free => exact hg.refuse hs found away free
  | fail found away _ free made => exact hg.fail hs found away free made
  | copy found _ owned _ free => exact hg.copy hs found owned free
  | lose found _ owned _ free => exact hg.lose hs found owned free
  | own found => exact hg.own found
  | remap found => exact hg.remap hs found
  | share found _ _ resident owned =>
      exact hg.share hs found resident owned (hD _ _ _ List.mem_cons_self).1
  | shareHalf found _ vacant resident owned _ mapped =>
      obtain ⟨stays, goes⟩ := hD _ _ _ List.mem_cons_self
      exact hg.shareHalf hs found vacant resident owned mapped stays (goes rfl)
  | read => exact hg
  | write => exact hg.store
  | dropAway _ _ disposed => exact hg.dropAway disposed
  | drop found _ owned disposed => exact hg.drop hs found owned disposed

theorem Steps.guarded (h : Steps c deeds c') (hs : c.Sound)
    (hD : ∀ src dst whole, .share src dst whole ∈ deeds →
      ¬ D src.space ∧ (whole = false → D dst.space)) (hg : c.Guarded D) : c'.Guarded D := by
  induction h with
  | refl => exact hg
  | tail run step ih =>
      refine step.guarded (run.sound hs) (fun src dst whole hm => hD src dst whole ?_)
        (ih fun src dst whole hm => hD src dst whole ?_)
      · exact List.mem_append_right _ hm
      · exact List.mem_append_left _ hm

end Core

end DemandPaging
