import DemandPaging.Proofs.PrivateMemory
import DemandPaging.Proofs.Sharers

namespace DemandPaging

open DemandPaging.Core
open Function (update update_self update_of_ne)

variable {m m' : Machine} {ref r : PageRef} {page : Page} {id new : FrameId} {frame : Frame}
  {src dst : SpaceId} {vpn : PageNum} {vpns : List PageNum} {done : Bool}

theorem Victim.GivesUp.entries {v : Victim} {c c' : Core} (h : v.GivesUp c c') (hs : c.Sound)
    (hr : r ≠ v.ref) : c'.mappings.find? r = c.mappings.find? r := by
  obtain ⟨⟨found, -⟩, kind, c₁, saves, rfl⟩ := h
  obtain ⟨swap, files, rfl⟩ := saves.core_eq
  rw [hs.entryRef found]
  exact Table.find?_erase_of_ne hr

theorem allocateFrame_entries (hs : m.core.Sound) (found : m.core.pages.find? r = some page)
    (resident : page.frame = some id) (owned : m.core.frames.find? id = some frame)
    (many : frame.owners.length ≠ 1) (h : allocateFrame m = .ok new m') :
    m'.core.mappings.find? r = m.core.mappings.find? r := by
  rcases allocateFrame_parts h with ⟨phys, memory, console, -, -, rfl⟩ | ⟨-, h⟩
  · rfl
  · obtain ⟨files, v, hv, -, run, gives⟩ := evict_parts h
    refine gives.entries (run.sound hs) ?_
    rintro rfl
    -- a victim is the only owner of its frame
    have stands := Machine.victims_stand hv
    cases Option.some.inj (stands.1.symm.trans found)
    cases Option.some.inj ((hs.victim stands.1 stands.2).symm.trans resident)
    cases Option.some.inj (stands.2.symm.trans owned)
    exact many rfl

namespace Core

variable {c c' c₁ c₂ : Core} {a b : PageRef} {whole : Bool}

/-- Contents are moved about. Pages that share their frames keep them, and their entries; no page
comes to share a frame, and none ceases to. -/
structure Shuffles (c c' : Core) : Prop where
  run : Steps c [] c'
  pins : ∀ r page id frame, c.pages.find? r = some page → page.frame = some id →
    c.frames.find? id = some frame → frame.owners.length ≠ 1 →
      c'.pages.find? r = some page ∧ c'.frames.find? id = some frame ∧
        c'.mappings.find? r = c.mappings.find? r
  together : ∀ a b, c'.Together a b ↔ c.Together a b

theorem Shuffles.refl (c : Core) : c.Shuffles c :=
  ⟨.refl c, fun _ _ _ _ found _ owned _ => ⟨found, owned, rfl⟩, fun _ _ => Iff.rfl⟩

theorem Shuffles.trans (h : c.Shuffles c₁) (h' : c₁.Shuffles c₂) : c.Shuffles c₂ := by
  refine ⟨h.run.trans h'.run, fun r page id frame found resident owned many => ?_,
    fun a b => (h'.together a b).trans (h.together a b)⟩
  obtain ⟨found₁, owned₁, entry₁⟩ := h.pins r page id frame found resident owned many
  obtain ⟨found₂, owned₂, entry₂⟩ := h'.pins r page id frame found₁ resident owned₁ many
  exact ⟨found₂, owned₂, entry₂.trans entry₁⟩

end Core

theorem allocateFrame_shuffles (hs : m.core.Sound) (h : allocateFrame m = .ok id m') :
    m.core.Shuffles m'.core := by
  obtain ⟨run, ⟨phys, free⟩, spares⟩ := allocateFrame_core hs h
  refine ⟨run, fun r page i frame found resident owned many => ⟨?_, spares.frame i frame owned many,
    allocateFrame_entries hs found resident owned many h⟩, fun a b => spares.together free⟩
  refine spares.page r page found fun j f hj hf => ?_
  cases Option.some.inj (resident.symm.trans hj)
  cases Option.some.inj (owned.symm.trans hf)
  exact many

namespace Core

variable {c c' c₁ c₂ : Core} {a b : PageRef} {whole : Bool}

theorem Claims.shuffles {q : PageKind × Bool} (h : c.Claims ref page id q [] c') (hs : c.Sound)
    (found : c.pages.find? ref = some page) (away : page.frame = none) : c.Shuffles c' := by
  refine ⟨(h.step found away).steps, fun r p i f hp resident owned many => ?_, fun a b => h.together⟩
  have home := hs.entryRef found
  have hr : ref ≠ r := by
    rintro rfl
    cases Option.some.inj (found.symm.trans hp)
    exact nomatch away.symm.trans resident
  obtain ⟨phys, free⟩ := h.free
  have hi : i ≠ id := fun he => hs.owned.unowned free r p hp (he ▸ resident)
  obtain ⟨p', -, hpages⟩ := h.pages
  obtain ⟨left, hframes, -⟩ := h.frames
  refine ⟨?_, ?_, ?_⟩
  · rw [hpages, Table.find?_insert, if_neg hr, hp]
  · rw [hframes, update_of_ne hi, owned]
  · cases h with
    | filled free fills =>
        obtain ⟨swap, programs, rfl, -⟩ := fills.core_eq
        rw [home]
        exact Table.find?_insert_of_ne (Ne.symm hr)
    | refused =>
        rw [home]
        exact Table.find?_erase_of_ne (Ne.symm hr)

end Core

theorem bringBack_shuffles (hs : m.core.Sound) (found : m.core.pages.find? ref = some page)
    (used : page.kind.isUninit = false) (h : bringBack ref page m = .ok done m') :
    m.core.Shuffles m'.core := by
  unfold bringBack at h
  split at h
  · obtain ⟨-, rfl⟩ := pure_ok.1 h
    exact .refl _
  · obtain ⟨away, taken, spares, -, -, -, claims, -⟩ := claimVacant_claimed hs h
    have first := allocateFrame_shuffles hs taken
    rw [claims.settles.2 used] at claims
    exact first.trans (claims.shuffles (first.run.sound hs) (spares.found_away found away) away)

namespace Core

inductive CopiesPage (c : Core) (src dst : PageRef) : Bool → Core → Prop where
  | absent (absent : c.pages.find? src = none) : CopiesPage c src dst true c
  | unused {page : Page} (found : c.pages.find? src = some page) (unused : page.kind.isUninit = true)
      (vacant : c.pages.find? dst = none) :
      CopiesPage c src dst true (c.setPage dst (.fresh dst.space page.writable page.kind))
  | shared {page : Page} {whole : Bool} {c₁ c' : Core} (found : c.pages.find? src = some page)
      (used : page.kind.isUninit = false) (back : c.Shuffles c₁)
      (share : Step c₁ [.share src dst whole] c') : CopiesPage c src dst whole c'
  | failed {c' : Core} (back : c.Shuffles c') : CopiesPage c src dst false c'

inductive CopiesPages (src dst : SpaceId) : Core → List PageNum → Bool → Core → Prop where
  | nil {c : Core} : CopiesPages src dst c [] true c
  | next {c c₁ c₂ : Core} {vpn : PageNum} {vpns : List PageNum} {done : Bool}
      (first : c.CopiesPage ⟨src, vpn⟩ ⟨dst, vpn⟩ true c₁)
      (rest : CopiesPages src dst c₁ vpns done c₂) : CopiesPages src dst c (vpn :: vpns) done c₂
  | stop {c c₁ : Core} {vpn : PageNum} {vpns : List PageNum}
      (first : c.CopiesPage ⟨src, vpn⟩ ⟨dst, vpn⟩ false c₁) :
      CopiesPages src dst c (vpn :: vpns) false c₁

end Core

theorem copyUsed_copies {src dst : PageRef} (hs : m.core.Sound)
    (found : m.core.pages.find? src = some page) (used : page.kind.isUninit = false)
    (h : copyUsed src dst page m = .ok done m') : m.core.CopiesPage src dst done m'.core := by
  obtain ⟨back, m₁, h₁, h⟩ := copyUsed_parts h
  have hback := bringBack_shuffles hs found used h₁
  rcases h with ⟨rfl, rfl⟩ | ⟨page₁, id, found₁, resident₁, h⟩
  · exact .failed hback
  · rcases shareFrame_core (hback.run.sound hs) found₁ resident₁ h with ⟨rfl, -, share⟩ |
      ⟨rfl, hm' | share⟩
    · exact .shared found used hback share
    · exact .failed (hm' ▸ hback)
    · exact .shared found used hback share

theorem copyPage_copies (hs : m.core.Sound) (h : copyPage src dst vpn m = .ok done m') :
    m.core.CopiesPage ⟨src, vpn⟩ ⟨dst, vpn⟩ done m'.core := by
  obtain ⟨got, _, h₁, h⟩ := bind_ok.1 h
  obtain ⟨hgot, rfl⟩ := page?_core h₁
  cases got with
  | none =>
      obtain ⟨rfl, rfl⟩ := pure_ok.1 h
      exact .absent hgot.symm
  | some page =>
      dsimp only at h
      split at h
      · next unused =>
          rcases copyUnused_core unused h with ⟨rfl, vacant, hm'⟩ | ⟨rfl, hm'⟩
          · rw [hm']
            exact .unused hgot.symm unused vacant
          · rw [hm']
            exact .failed (.refl _)
      · next used => exact copyUsed_copies hs hgot.symm (Bool.not_eq_true _ ▸ used) h

theorem copyPages_copies (hs : m.core.Sound) (h : copyPages src dst vpns m = .ok done m') :
    Core.CopiesPages src dst m.core vpns done m'.core := by
  induction vpns generalizing m with
  | nil =>
      obtain ⟨rfl, rfl⟩ := pure_ok.1 h
      exact .nil
  | cons vpn rest ih =>
      obtain ⟨copied, m₁, h₁, h⟩ := bind_ok.1 h
      have hfirst := copyPage_copies hs h₁
      obtain ⟨ds, hsteps, -⟩ := copyPage_core hs h₁
      cases copied with
      | true => exact .next hfirst (ih (hsteps.sound hs) h)
      | false =>
          obtain ⟨rfl, rfl⟩ := pure_ok.1 h
          exact .stop hfirst

/-- A copy is what the page is, wherever its contents are. -/
structure Page.Matches (page copy : Page) : Prop where
  writable : copy.writable = page.writable
  kind : copy.kind.twin = page.kind.twin

namespace Page.Matches

variable {page page' copy copy' : Page}

theorem after (h : page.Matches copy) (same : copy.Remains True copy') : page.Matches copy' :=
  ⟨same.writable.trans h.writable, (same.kind trivial).trans h.kind⟩

theorem before (same : page.Remains True page') (h : page'.Matches copy) : page.Matches copy :=
  ⟨h.writable.trans same.writable, h.kind.trans (same.kind trivial)⟩

theorem pageType (h : page.Matches copy) : copy.kind.pageType = page.kind.pageType := by
  rw [← PageKind.pageType_twin, h.kind, PageKind.pageType_twin]

theorem isUninit (h : page.Matches copy) : copy.kind.isUninit = page.kind.isUninit := by
  rw [← PageKind.isUninit_twin, h.kind, PageKind.isUninit_twin]

end Page.Matches

theorem Deed.Copies.idle {d : Deed} (h : d.Copies src dst) : ¬ d.Settles ref ∧ d ≠ .drop ref := by
  cases d with
  | make | fail | drop => exact h.elim
  | _ => exact ⟨id, nofun⟩

/-- Pages come and go in one space only, and nothing is done with the others. -/
def Deed.Confined (s : SpaceId) : Deed → Prop
  | add ref _ | drop ref | share _ ref _ => ref.space = s
  | chart _ => True
  | _ => False

theorem Deed.Copies.confined {d : Deed} (h : d.Copies src dst) : d.Confined dst := by
  cases d with
  | share => exact congrArg PageRef.space h.2
  | add | chart => exact h
  | _ => exact h.elim

namespace Core

variable {c c' c₁ c₂ : Core} {a b : PageRef} {ds : List Deed} {whole : Bool}

theorem CopiesPage.steps (h : c.CopiesPage ⟨src, vpn⟩ ⟨dst, vpn⟩ done c') :
    ∃ ds, Steps c ds c' ∧ ∀ d ∈ ds, d.Copies src dst := by
  cases h with
  | absent => exact ⟨[], .refl _, nofun⟩
  | @unused page _ unused vacant =>
      have hslot (slot : SwapSlot) : page.kind ≠ .anon (some slot) := by
        intro hk
        rw [hk] at unused
        exact nomatch unused
      refine ⟨_, (Step.add vacant hslot).steps, fun d hd => ?_⟩
      rw [List.mem_singleton.1 hd]
      rfl
  | shared _ _ back share =>
      refine ⟨_, back.run.trans share.steps, fun d hd => ?_⟩
      rw [List.mem_singleton.1 hd]
      exact ⟨rfl, rfl⟩
  | failed back => exact ⟨[], back.run, nofun⟩

theorem CopiesPages.steps (h : CopiesPages src dst c vpns done c') :
    ∃ ds, Steps c ds c' ∧ ∀ d ∈ ds, d.Copies src dst := by
  induction h with
  | nil => exact ⟨[], .refl _, nofun⟩
  | next first _ ih =>
      obtain ⟨ds, run, hds⟩ := first.steps
      obtain ⟨es, run', hes⟩ := ih
      refine ⟨ds ++ es, run.trans run', fun d hd => ?_⟩
      rcases List.mem_append.1 hd with hd | hd
      · exact hds d hd
      · exact hes d hd
  | stop first => exact first.steps

theorem Steps.remains_idle (h : Steps c ds c') (copies : ∀ d ∈ ds, d.Copies src dst)
    (found : c.pages.find? ref = some page) :
    ∃ page', c'.pages.find? ref = some page' ∧ page.Remains True page' := by
  obtain ⟨page', found', same⟩ := h.remains found fun hd => (copies _ hd).idle.2 rfl
  exact ⟨page', found', same.mono fun _ d hd => (copies d hd).idle.1⟩

theorem Steps.remains_beside (h : Steps c ds c') (confined : ∀ d ∈ ds, d.Confined dst)
    (apart : ref.space ≠ dst) (found : c.pages.find? ref = some page) :
    ∃ page', c'.pages.find? ref = some page' ∧ page.Remains True page' := by
  obtain ⟨page', found', same⟩ := h.remains found fun hd => apart (confined _ hd)
  refine ⟨page', found', same.mono fun _ d hd settles => ?_⟩
  have hconfined := confined d hd
  cases d with
  | make | fail => exact hconfined
  | _ => exact settles

theorem Steps.vacant_beside (h : Steps c ds c') (hs : c.Sound) (confined : ∀ d ∈ ds, d.Confined dst)
    (apart : ref.space ≠ dst) (vacant : c.pages.find? ref = none) : c'.pages.find? ref = none := by
  refine h.vacant hs (fun d hd hw => ?_) vacant (fun _ hd => apart (confined _ hd))
    fun _ _ hd => apart (confined _ hd)
  have hconfined := confined d hd
  cases d with
  | write => exact hconfined
  | _ => exact hw

theorem CopiesPage.together (h : c.CopiesPage ⟨src, vpn⟩ ⟨dst, vpn⟩ done c') (ha : a.space ≠ dst)
    (hb : b.space ≠ dst) : c'.Together a b ↔ c.Together a b := by
  cases h with
  | absent => exact Iff.rfl
  | unused => exact together_of_frames rfl
  | shared _ _ back share =>
      refine (share.together_share ?_ ?_).trans (back.together a b)
      · exact fun he => ha (congrArg PageRef.space he)
      · exact fun he => hb (congrArg PageRef.space he)
  | failed back => exact back.together a b

theorem CopiesPages.together (h : CopiesPages src dst c vpns done c') (ha : a.space ≠ dst)
    (hb : b.space ≠ dst) : c'.Together a b ↔ c.Together a b := by
  induction h with
  | nil => exact Iff.rfl
  | next first _ ih => exact ih.trans (first.together ha hb)
  | stop first => exact first.together ha hb

def Twinned (c : Core) (a b : PageRef) : Prop :=
  ∃ id frame, c.frames.find? id = some frame ∧ ∀ r, r = a ∨ r = b → ∃ page dirty,
    c.pages.find? r = some page ∧ page.frame = some id ∧
      c.mappings.find? r = some ⟨frame.page, false, dirty⟩

theorem Twinned.together (h : c.Twinned a b) (hs : c.Sound) (apart : a ≠ b) : c.Together a b := by
  obtain ⟨id, frame, owned, both⟩ := h
  obtain ⟨_, _, found, resident, -⟩ := both a (.inl rfl)
  obtain ⟨_, _, found', resident', -⟩ := both b (.inr rfl)
  exact ⟨apart, id, frame, owned, hs.owner found resident owned, hs.owner found' resident' owned⟩

theorem Twinned.resident {copy : Page} (h : c.Twinned a b) (found : c.pages.find? a = some page)
    (found' : c.pages.find? b = some copy) :
    ∃ id frame, page.frame = some id ∧ copy.frame = some id ∧ c.frames.find? id = some frame ∧
      ∀ r, r = a ∨ r = b → ∃ dirty, c.mappings.find? r = some ⟨frame.page, false, dirty⟩ := by
  obtain ⟨id, frame, owned, both⟩ := h
  obtain ⟨_, _, hp, resident, -⟩ := both a (.inl rfl)
  cases Option.some.inj (found.symm.trans hp)
  obtain ⟨_, _, hp, resident', -⟩ := both b (.inr rfl)
  cases Option.some.inj (found'.symm.trans hp)
  refine ⟨id, frame, resident, resident', owned, fun r hr => ?_⟩
  obtain ⟨_, dirty, -, -, entry⟩ := both r hr
  exact ⟨dirty, entry⟩

theorem Twinned.kept (h : c.Twinned a b) (pages : ∀ r, r = a ∨ r = b →
      c'.pages.find? r = c.pages.find? r ∧ c'.mappings.find? r = c.mappings.find? r)
    (frames : ∀ id frame, c.frames.find? id = some frame →
      ∃ owners, c'.frames.find? id = some { frame with owners }) : c'.Twinned a b := by
  obtain ⟨id, frame, owned, both⟩ := h
  obtain ⟨owners, owned'⟩ := frames id frame owned
  refine ⟨id, _, owned', fun r hr => ?_⟩
  obtain ⟨page, dirty, found, resident, entry⟩ := both r hr
  obtain ⟨hpage, hentry⟩ := pages r hr
  exact ⟨page, dirty, hpage.trans found, resident, hentry.trans entry⟩

theorem Shuffles.twinned (h : c.Shuffles c') (hs : c.Sound) (apart : a ≠ b) (twins : c.Twinned a b) :
    c'.Twinned a b := by
  have together := twins.together hs apart
  obtain ⟨id, frame, owned, both⟩ := twins
  obtain ⟨_, _, found, resident, -⟩ := both a (.inl rfl)
  obtain ⟨_, _, found', resident', -⟩ := both b (.inr rfl)
  have many := many_of_mem apart (hs.owner found resident owned) (hs.owner found' resident' owned)
  refine ⟨id, frame, (h.pins a _ id frame found resident owned many).2.1, fun r hr => ?_⟩
  obtain ⟨page, dirty, found, resident, entry⟩ := both r hr
  obtain ⟨found', -, entry'⟩ := h.pins r page id frame found resident owned many
  exact ⟨page, dirty, found', resident, entry'.trans entry⟩

theorem Step.twins (h : Step c [.share a b true] c') (hs : c.Sound) : c'.Twinned a b := by
  cases h with
  | @share _ _ page id frame found used vacant resident owned =>
      have hne := ne_of_found found vacant
      obtain ⟨hsrc, hdst, hframe⟩ := @share_find page id frame c a b hne
      rw [hs.entryRef found]
      refine ⟨id, _, hframe, ?_⟩
      rintro r (rfl | rfl)
      · refine ⟨_, (c.share r b page id frame).dirty r, hsrc, resident, ?_⟩
        refine (Table.find?_insert_of_ne (Ne.symm hne)).trans ?_
        exact Table.find?_insert_self
      · exact ⟨_, _, hdst, rfl, Table.find?_insert_self⟩
  | fill _ _ _ filled => exact (filled.settles.1 _ List.mem_cons_self).elim

theorem Step.share_others (h : Step c [.share a b true] c') (hs : c.Sound) (hr : r ≠ a)
    (hr' : r ≠ b) : c'.pages.find? r = c.pages.find? r ∧ c'.mappings.find? r = c.mappings.find? r := by
  refine ⟨h.share_leads.2 r hr hr', ?_⟩
  cases h with
  | share found =>
      rw [hs.entryRef found]
      refine (Table.find?_insert_of_ne hr').trans ?_
      exact Table.find?_insert_of_ne hr
  | fill _ _ _ filled => exact (filled.settles.1 _ List.mem_cons_self).elim

theorem Step.share_frames (h : Step c [.share a b true] c') (found : c.frames.find? id = some frame) :
    ∃ owners, c'.frames.find? id = some { frame with owners } := by
  cases h with
  | @share _ _ _ i f _ _ _ _ owned =>
      change ∃ owners, (c.frames.update i _).find? id = _
      rw [FrameTable.find?_update]
      split
      · next hi =>
          cases Option.some.inj (owned.symm.trans (hi ▸ found))
          exact ⟨_, rfl⟩
      · exact ⟨_, found⟩
  | fill _ _ _ filled => exact (filled.settles.1 _ List.mem_cons_self).elim

theorem Step.share_vacant (h : Step c [.share a b whole] c') :
    c.pages.find? b = none ∧ ∃ page, c.pages.find? a = some page := by
  cases h with
  | share found _ vacant => exact ⟨vacant, _, found⟩
  | shareHalf found _ vacant => exact ⟨vacant, _, found⟩
  | fill _ _ _ filled => exact (filled.settles.1 _ List.mem_cons_self).elim

theorem CopiesPage.twinned {v : PageNum} (h : c.CopiesPage ⟨src, v⟩ ⟨dst, v⟩ true c') (hs : c.Sound)
    (apart : src ≠ dst) (twins : c.Twinned ⟨src, vpn⟩ ⟨dst, vpn⟩) :
    c'.Twinned ⟨src, vpn⟩ ⟨dst, vpn⟩ := by
  have hne : (⟨src, vpn⟩ : PageRef) ≠ ⟨dst, vpn⟩ := fun he => apart (PageRef.mk.inj he).1
  cases h with
  | absent => exact twins
  | unused _ _ vacant =>
      refine twins.kept (fun r hr => ⟨?_, rfl⟩) fun _ frame owned => ⟨frame.owners, owned⟩
      obtain ⟨_, _, _, both⟩ := twins
      obtain ⟨_, _, found, -⟩ := both r hr
      exact Table.find?_insert_of_ne (Ne.symm (ne_of_found found vacant))
  | shared _ _ back share =>
      have twins₁ := back.twinned hs hne twins
      have hs₁ := back.run.sound hs
      -- the number is a new one, since there is no copy with it yet
      have other : v ≠ vpn := by
        rintro rfl
        obtain ⟨_, _, _, both⟩ := twins₁
        obtain ⟨_, _, found, -⟩ := both _ (.inr rfl)
        exact nomatch share.share_vacant.1.symm.trans found
      refine twins₁.kept (fun r hr => share.share_others hs₁ ?_ ?_) fun _ _ => share.share_frames
      · rcases hr with rfl | rfl
        · exact fun he => other (PageRef.mk.inj he).2.symm
        · exact fun he => apart (PageRef.mk.inj he).1.symm
      · rcases hr with rfl | rfl
        · exact fun he => apart (PageRef.mk.inj he).1
        · exact fun he => other (PageRef.mk.inj he).2.symm

theorem CopiesPages.twinned (h : CopiesPages src dst c vpns true c') (hs : c.Sound)
    (apart : src ≠ dst) (twins : c.Twinned ⟨src, vpn⟩ ⟨dst, vpn⟩) :
    c'.Twinned ⟨src, vpn⟩ ⟨dst, vpn⟩ := by
  generalize hdone : true = done at h
  induction h with
  | nil => exact twins
  | next first _ ih =>
      obtain ⟨ds, run, -⟩ := first.steps
      exact ih (run.sound hs) (first.twinned hs apart twins) hdone
  | stop => exact nomatch hdone

/-- A page that was copied has a copy that is what it is, in the same frame if it was in use. -/
structure Copied (c : Core) (a b : PageRef) (page : Page) : Prop where
  copy : ∃ copy, c.pages.find? b = some copy ∧ page.Matches copy
  twins : page.kind.isUninit = false → c.Twinned a b

theorem CopiesPage.copied (h : c.CopiesPage ⟨src, vpn⟩ ⟨dst, vpn⟩ true c') (hs : c.Sound)
    (found : c.pages.find? ⟨src, vpn⟩ = some page) : c'.Copied ⟨src, vpn⟩ ⟨dst, vpn⟩ page := by
  cases h with
  | absent absent => exact nomatch absent.symm.trans found
  | unused found' unused =>
      cases Option.some.inj (found'.symm.trans found)
      refine ⟨⟨_, Table.find?_insert_self, rfl, rfl⟩, fun used => ?_⟩
      exact nomatch used.symm.trans unused
  | shared _ _ back share =>
      have quiet : ∀ d ∈ ([] : List Deed), d.Copies src dst := nofun
      obtain ⟨page₁, found₁, same⟩ := back.run.remains_idle quiet found
      have twins := share.twins (back.run.sound hs)
      refine ⟨?_, fun _ => twins⟩
      cases share with
      | share found₂ _ vacant =>
          cases Option.some.inj (found₁.symm.trans found₂)
          obtain ⟨-, hdst, -⟩ := share_find (ne_of_found found₂ vacant)
          exact ⟨_, hdst, same.writable, (PageKind.twin_twin _).trans (same.kind trivial)⟩
      | fill _ _ _ filled => exact (filled.settles.1 _ List.mem_cons_self).elim

theorem CopiesPages.copied (h : CopiesPages src dst c vpns true c') (hs : c.Sound) (apart : src ≠ dst)
    (hv : vpn ∈ vpns) (found : c.pages.find? ⟨src, vpn⟩ = some page) :
    c'.Copied ⟨src, vpn⟩ ⟨dst, vpn⟩ page := by
  generalize hdone : true = done at h
  induction h generalizing page with
  | nil => exact nomatch hv
  | @next c c₁ _ v _ _ first rest ih =>
      subst hdone
      obtain ⟨ds, run, hds⟩ := first.steps
      have hs₁ := run.sound hs
      rcases List.mem_cons.1 hv with rfl | hv
      · obtain ⟨⟨copy, hcopy, matched⟩, twins⟩ := first.copied hs found
        obtain ⟨es, run', hes⟩ := rest.steps
        obtain ⟨copy', hcopy', same⟩ := run'.remains_idle hes hcopy
        exact ⟨⟨copy', hcopy', matched.after same⟩, fun used => rest.twinned hs₁ apart (twins used)⟩
      · obtain ⟨page₁, found₁, same⟩ := run.remains_idle hds found
        obtain ⟨⟨copy, hcopy, matched⟩, twins⟩ := ih hs₁ hv found₁ rfl
        exact ⟨⟨copy, hcopy, .before same matched⟩, fun used => twins (same.used used)⟩
  | stop => exact nomatch hdone

theorem CopiesPage.vacant {v : PageNum} (h : c.CopiesPage ⟨src, v⟩ ⟨dst, v⟩ done c') (hs : c.Sound)
    (apart : src ≠ dst) (absent : c.pages.find? ⟨src, vpn⟩ = none)
    (vacant : c.pages.find? ⟨dst, vpn⟩ = none) :
    c'.pages.find? ⟨src, vpn⟩ = none ∧ c'.pages.find? ⟨dst, vpn⟩ = none := by
  obtain ⟨ds, run, hds⟩ := h.steps
  refine ⟨run.vacant_beside hs (fun d hd => (hds d hd).confined) apart absent, ?_⟩
  have other {p : Page} (found : c.pages.find? ⟨src, v⟩ = some p) :
      (⟨dst, v⟩ : PageRef) ≠ ⟨dst, vpn⟩ := by
    rintro he
    cases he
    exact nomatch absent.symm.trans found
  cases h with
  | absent => exact vacant
  | unused found => exact (Table.find?_insert_of_ne (Ne.symm (other found))).trans vacant
  | shared found _ back share =>
      refine (back.run.tail share).vacant hs (fun d hd hw => ?_) vacant (fun _ hd => ?_) fun _ _ hd => ?_
      · rw [List.mem_singleton.1 hd] at hw
        exact hw
      · exact nomatch List.mem_singleton.1 hd
      · cases List.mem_singleton.1 hd
        exact other found rfl
  | failed back => exact back.run.vacant hs nofun vacant nofun nofun

theorem CopiesPages.vacant (h : CopiesPages src dst c vpns done c') (hs : c.Sound) (apart : src ≠ dst)
    (absent : c.pages.find? ⟨src, vpn⟩ = none) (vacant : c.pages.find? ⟨dst, vpn⟩ = none) :
    c'.pages.find? ⟨dst, vpn⟩ = none := by
  induction h with
  | nil => exact vacant
  | next first _ ih =>
      obtain ⟨absent', vacant'⟩ := first.vacant hs apart absent vacant
      obtain ⟨ds, run, -⟩ := first.steps
      exact ih (run.sound hs) absent' vacant'
  | stop first => exact (first.vacant hs apart absent vacant).2

end Core

theorem copySpace_copies {order : Traversal} (hs : m.core.Sound)
    (h : copySpace src dst order m = .ok done m') :
    ∃ m₁ : Machine, Core.CopiesPages src dst m.core (order.visit (m.pageNumbers src)) done m₁.core ∧
      ∃ regions, m' = { m₁ with regions } := by
  obtain ⟨m₁, copied, hrest⟩ := copySpace_parts h
  refine ⟨m₁, copyPages_copies hs copied, ?_⟩
  rcases hrest with ⟨-, charted⟩ | ⟨-, rfl⟩
  · exact ⟨_, (modify_ok.1 charted).symm⟩
  · exact ⟨m₁.regions, rfl⟩

end DemandPaging
