import DemandPaging.Proofs.Charts
import DemandPaging.Proofs.Lifetimes

/-!
Pages that are together in a frame. Only sharing brings pages together, and it does so with pages of
the same number; a search for a frame and the claim of a page leave them where they are.
-/

namespace DemandPaging

open DemandPaging.Core
open Function (update update_self update_of_ne)

variable {m m' : Machine} {ref r a b : PageRef} {page : Page} {id : FrameId} {frame : Frame}

namespace Core

variable {c c' : Core} {ds : List Deed} {left : Option Frame}

def Together (c : Core) (a b : PageRef) : Prop :=
  a ≠ b ∧ ∃ id frame, c.frames.find? id = some frame ∧ a ∈ frame.owners ∧ b ∈ frame.owners

theorem many_of_mem (hne : a ≠ b) {owners : List PageRef} (ha : a ∈ owners) (hb : b ∈ owners) :
    owners.length ≠ 1 := by
  intro hone
  obtain ⟨x, rfl⟩ := List.length_eq_one_iff.1 hone
  exact hne ((List.mem_singleton.1 ha).trans (List.mem_singleton.1 hb).symm)

theorem Together.symm (h : c.Together a b) : c.Together b a := by
  obtain ⟨hne, id, frame, found, ha, hb⟩ := h
  exact ⟨hne.symm, id, frame, found, hb, ha⟩

theorem together_of_frames (same : c'.frames = c.frames) : c'.Together a b ↔ c.Together a b := by
  rw [Together, Together, same]

theorem Sound.owner_iff (hs : c.Sound) (found : c.pages.find? ref = some page)
    (resident : page.frame = some id) (owned : c.frames.find? id = some frame) :
    r ∈ frame.owners ↔ r = ref ∨ c.Together ref r := by
  have hown := hs.owner found resident owned
  constructor
  · intro hr
    by_cases hne : r = ref
    · exact .inl hne
    · exact .inr ⟨Ne.symm hne, id, frame, owned, hown, hr⟩
  · rintro (rfl | ⟨-, id', frame', owned', href, hr⟩)
    · exact hown
    · -- the page is in one frame only
      obtain ⟨p, hp, hid⟩ := hs.owned.page_of id' frame' ref owned' href
      cases Option.some.inj (found.symm.trans hp)
      cases Option.some.inj (resident.symm.trans hid)
      cases Option.some.inj (owned.symm.trans owned')
      exact hr

theorem Sound.owners_alone (hs : c.Sound) (found : c.pages.find? ref = some page)
    (resident : page.frame = some id) (owned : c.frames.find? id = some frame)
    (alone : ∀ r, ¬ c.Together ref r) : frame.owners = [ref] := by
  have hmem (r : PageRef) : r ∈ frame.owners ↔ r ∈ [ref] := by
    rw [hs.owner_iff found resident owned, List.mem_singleton]
    exact or_iff_left (alone r)
  exact List.perm_singleton.1 ((List.perm_ext_iff_of_nodup (hs.owned.nodup id frame owned)
    (List.nodup_singleton ref)).2 hmem)

theorem Together.found (hs : c.Sound) (h : c.Together a b) : ∃ p, c.pages.find? b = some p := by
  obtain ⟨-, id, frame, owned, -, hb⟩ := h
  obtain ⟨p, hp, -⟩ := hs.owned.page_of id frame b owned hb
  exact ⟨p, hp⟩

/-- As long as the pages of two frames are the same, one of them new, what becomes of a frame with one
owner at most is of no account. -/
theorem together_update (hf : c'.frames.find? = update c.frames.find? id left)
    (old : ∀ frame, c.frames.find? id = some frame → frame.owners.length ≤ 1)
    (new : ∀ frame, left = some frame → frame.owners.length ≤ 1) :
    c'.Together a b ↔ c.Together a b := by
  have two (hne : a ≠ b) {frame : Frame} (ha : a ∈ frame.owners) (hb : b ∈ frame.owners) :
      ¬ frame.owners.length ≤ 1 := fun hle =>
    many_of_mem hne ha hb (Nat.le_antisymm hle (List.length_pos_of_mem ha))
  refine and_congr_right fun hne => ?_
  rw [hf]
  constructor
  · rintro ⟨i, f, found, ha, hb⟩
    by_cases hi : i = id
    · subst hi
      rw [update_self] at found
      exact (two hne ha hb (new f found)).elim
    · rw [update_of_ne hi] at found
      exact ⟨i, f, found, ha, hb⟩
  · rintro ⟨i, f, found, ha, hb⟩
    refine ⟨i, f, ?_, ha, hb⟩
    rw [update_of_ne, found]
    rintro rfl
    exact two hne ha hb (old f found)

theorem together_others (hf : c'.frames.find? = update c.frames.find? id left)
    (found : c.frames.find? id = some frame)
    (kept : a ≠ b → (a ∈ frame.owners ∧ b ∈ frame.owners ↔
      ∃ frame', left = some frame' ∧ a ∈ frame'.owners ∧ b ∈ frame'.owners)) :
    c'.Together a b ↔ c.Together a b := by
  refine and_congr_right fun hne => ?_
  rw [hf]
  constructor
  · rintro ⟨i, f, hi, ha, hb⟩
    by_cases he : i = id
    · subst he
      rw [update_self] at hi
      exact ⟨i, frame, found, (kept hne).2 ⟨f, hi, ha, hb⟩⟩
    · rw [update_of_ne he] at hi
      exact ⟨i, f, hi, ha, hb⟩
  · rintro ⟨i, f, hi, ha, hb⟩
    by_cases he : i = id
    · subst he
      cases Option.some.inj (found.symm.trans hi)
      obtain ⟨f', hleft, ha', hb'⟩ := (kept hne).1 ⟨ha, hb⟩
      exact ⟨i, f', by rw [update_self, hleft], ha', hb'⟩
    · exact ⟨i, f, by rw [update_of_ne he, hi], ha, hb⟩

theorem Spares.together (h : c.Spares c' id) {phys : PhysPage}
    (free : c'.frames.find? id = some ⟨phys, []⟩) : c'.Together a b ↔ c.Together a b := by
  refine and_congr_right fun hne => ⟨?_, ?_⟩
  · rintro ⟨i, f, found, ha, hb⟩
    refine ⟨i, f, ?_, ha, hb⟩
    rw [← h.others i, found]
    rintro rfl
    cases Option.some.inj (free.symm.trans found)
    exact nomatch ha
  · rintro ⟨i, f, found, ha, hb⟩
    exact ⟨i, f, h.frame i f found (many_of_mem hne ha hb), ha, hb⟩

theorem Claims.free {r : PageKind × Bool} (h : c.Claims ref page id r ds c') :
    ∃ phys, c.frames.find? id = some ⟨phys, []⟩ := by
  cases h with
  | filled free | refused free | failed free => exact ⟨_, free⟩

theorem Claims.together {r : PageKind × Bool} (h : c.Claims ref page id r ds c') :
    c'.Together a b ↔ c.Together a b := by
  obtain ⟨phys, free⟩ := h.free
  obtain ⟨left, hframes, howned⟩ := h.frames
  refine together_update hframes (fun f found => ?_) fun f hleft => ?_
  · cases Option.some.inj (free.symm.trans found)
    exact Nat.zero_le 1
  · rw [howned f hleft]
    exact Nat.le_refl 1

theorem Step.together_share {src dst : PageRef} {whole : Bool} (h : Step c [.share src dst whole] c')
    (ha : a ≠ dst) (hb : b ≠ dst) : c'.Together a b ↔ c.Together a b := by
  have shares {p : Page} {i : FrameId} {f : Frame} (owned : c.frames.find? i = some f)
      (frames : c'.frames = (c.share src dst p i f).frames) : c'.Together a b ↔ c.Together a b := by
    have hf : c'.frames.find? =
        update c.frames.find? i (some { f with owners := f.owners ++ [dst] }) := by
      rw [frames]
      exact FrameTable.find?_update_eq _ _ _
    refine together_others hf owned fun _ => ?_
    simp [ha, hb]
  cases h with
  | share _ _ _ _ owned => exact shares owned rfl
  | shareHalf _ _ _ _ owned _ mapped =>
      rcases mapped with rfl | rfl
      · exact shares owned rfl
      · exact shares owned rfl
  | fill _ _ _ filled => exact (filled.settles.1 _ List.mem_cons_self).elim

theorem disown_together (owned : c.frames.find? id = some frame) (ha : a ≠ ref) (hb : b ≠ ref) :
    (c.disown id frame ref).Together a b ↔ c.Together a b := by
  obtain ⟨left, _, hframes, hleaves⟩ := disown_frames c id frame ref
  refine together_others hframes owned fun _ => ?_
  have mem {r : PageRef} (hr : r ≠ ref) :
      r ∈ frame.owners.filter (· ≠ ref) ↔ r ∈ frame.owners := by simp [hr]
  rcases hleaves.left with rfl | ⟨rfl, empty⟩
  · simp only [Option.some.injEq, exists_eq_left', mem ha, mem hb]
  · have nobody : a ∉ frame.owners := by
      rw [← mem ha, List.isEmpty_iff.1 empty]
      exact List.not_mem_nil
    simp [nobody]

theorem Step.together_drop (h : Step c [.drop ref] c') (ha : a ≠ ref) (hb : b ≠ ref) :
    c'.Together a b ↔ c.Together a b := by
  cases h with
  | dropAway _ _ disposed =>
      obtain ⟨swap, files, rfl⟩ := disposed.core_eq
      exact together_of_frames rfl
  | drop _ _ owned disposed =>
      obtain ⟨swap, files, rfl⟩ := disposed.core_eq
      exact disown_together owned ha hb
  | fill _ _ _ filled => exact (filled.settles.1 _ List.mem_cons_self).elim

theorem Together.before (h : c'.Together a b) (hf : c'.frames.find? = update c.frames.find? id left)
    (hleft : ∀ f, left = some f → f.owners.length ≤ 1 ∨
      ∃ frame, c.frames.find? id = some frame ∧ ∀ r ∈ f.owners, r ∈ frame.owners) :
    c.Together a b := by
  obtain ⟨hne, i, f, found, ha, hb⟩ := h
  rw [hf] at found
  by_cases hi : i = id
  · subst hi
    rw [update_self] at found
    rcases hleft f found with few | ⟨frame, owned, subset⟩
    · exact (many_of_mem hne ha hb (Nat.le_antisymm few (List.length_pos_of_mem ha))).elim
    · exact ⟨hne, i, frame, owned, subset a ha, subset b hb⟩
  · rw [update_of_ne hi] at found
    exact ⟨hne, i, f, found, ha, hb⟩

theorem disown_before (owned : c.frames.find? id = some frame)
    (h : (c.disown id frame ref).Together a b) : c.Together a b := by
  obtain ⟨left, _, hframes, hleaves⟩ := disown_frames c id frame ref
  refine h.before hframes fun f hf => .inr ⟨frame, owned, ?_⟩
  exact hleaves.subset hf

theorem diverge_before {phys : PhysPage} (owned : c.frames.find? id = some frame)
    (h : (c.diverge ref id frame phys).Together a b) : c.Together a b :=
  disown_before (c := c.write phys (c.memory.read frame.page)) owned h

theorem setFrame_before {phys : PhysPage} {owners : List PageRef} (few : owners.length ≤ 1)
    (h : (c.setFrame id ⟨phys, owners⟩).Together a b) : c.Together a b :=
  h.before (FrameTable.find?_update_eq _ _ _) fun f hf => by
    cases hf
    exact .inl few

theorem Step.together_before (h : Step c ds c') (hs : c.Sound)
    (unshared : ∀ a b whole, .share a b whole ∉ ds) (together : c'.Together a b) :
    c.Together a b := by
  cases h with
  | acquire =>
      obtain ⟨-, -, hfind, -⟩ := hs.add_frame ⟨_, []⟩
      refine together.before hfind fun f hf => ?_
      cases hf
      exact .inl (Nat.zero_le 1)
  | @evict _ _ _ id phys _ _ _ saved =>
      obtain ⟨swap, files, rfl⟩ := saved.core_eq
      have cleared : (c.setFrame id ⟨phys, []⟩).Together a b := together
      exact setFrame_before (by simp) cleared
  | @fill _ ref _ id phys _ _ _ _ _ _ filled =>
      obtain ⟨swap, programs, rfl, -⟩ := filled.core_eq
      have taken : (c.setFrame id ⟨phys, [ref]⟩).Together a b := together
      exact setFrame_before (by simp) taken
  | refuse => exact together.before (FrameTable.find?_remove_eq _ _) nofun
  | fail _ _ _ _ made =>
      obtain ⟨programs, rfl, -⟩ := made.core_eq
      exact together.before (FrameTable.find?_remove_eq _ _) nofun
  | @copy ref _ old new shared phys _ _ owned =>
      have taken : ((c.diverge ref old shared phys).setFrame new ⟨phys, [ref]⟩).Together a b := together
      exact diverge_before owned (setFrame_before (by simp) taken)
  | lose _ _ owned =>
      refine diverge_before owned (together.before (FrameTable.find?_remove_eq _ _) nofun)
  | share | shareHalf => exact (unshared _ _ _ List.mem_cons_self).elim
  | drop _ _ owned disposed =>
      obtain ⟨swap, files, rfl⟩ := disposed.core_eq
      exact disown_before (c := Core.unmap { c with pages := _, swap, files } _) owned together
  | dropAway _ _ disposed =>
      obtain ⟨swap, files, rfl⟩ := disposed.core_eq
      exact together
  | _ => exact together

theorem Steps.together_before (h : Steps c ds c') (hs : c.Sound)
    (unshared : ∀ a b whole, .share a b whole ∉ ds) (together : c'.Together a b) :
    c.Together a b := by
  induction h with
  | refl => exact together
  | tail run step ih =>
      have before := step.together_before (run.sound hs)
        (fun a b w hm => unshared a b w (List.mem_append_right _ hm)) together
      exact ih (fun a b w hm => unshared a b w (List.mem_append_left _ hm)) before

def Level (c : Core) : Prop :=
  ∀ id frame, c.frames.find? id = some frame → ∀ a ∈ frame.owners, ∀ b ∈ frame.owners, a.vpn = b.vpn

theorem Level.together (h : c.Level) (hab : c.Together a b) : a.vpn = b.vpn ∧ a.space ≠ b.space := by
  obtain ⟨hne, id, frame, owned, ha, hb⟩ := hab
  have hvpn := h id frame owned a ha b hb
  refine ⟨hvpn, fun hspace => hne ?_⟩
  cases a
  cases b
  cases hvpn
  cases hspace
  rfl

theorem Level.update (h : c.Level) (hf : c'.frames.find? = update c.frames.find? id left)
    (hleft : ∀ frame, left = some frame → ∀ a ∈ frame.owners, ∀ b ∈ frame.owners, a.vpn = b.vpn) :
    c'.Level := by
  intro i f hi
  rw [hf] at hi
  by_cases he : i = id
  · subst he
    rw [update_self] at hi
    exact hleft f hi
  · rw [update_of_ne he] at hi
    exact h i f hi

theorem Level.of_frames (h : c.Level) (same : c'.frames = c.frames) : c'.Level := by
  intro id f hi
  rw [same] at hi
  exact h id f hi

theorem Level.disown (h : c.Level) (owned : c.frames.find? id = some frame) (ref : PageRef) :
    (c.disown id frame ref).Level := by
  obtain ⟨left, _, hframes, hleaves⟩ := disown_frames c id frame ref
  refine h.update hframes fun f hf a ha b hb => ?_
  exact h id frame owned a (hleaves.subset hf a ha) b (hleaves.subset hf b hb)

theorem Level.diverge (h : c.Level) (owned : c.frames.find? id = some frame) {phys : PhysPage} :
    (c.diverge ref id frame phys).Level :=
  Level.disown (c := c.write phys (c.memory.read frame.page)) h owned ref

theorem Level.setFrame (h : c.Level) {phys : PhysPage} {owners : List PageRef}
    (ref : PageRef) (only : ∀ a ∈ owners, a = ref) : (c.setFrame id ⟨phys, owners⟩).Level := by
  refine h.update (FrameTable.find?_update_eq _ _ _) fun f hf a ha b hb => ?_
  cases hf
  rw [only a ha, only b hb]

theorem Level.share {src dst : PageRef} (h : c.Level) (hs : c.Sound)
    (found : c.pages.find? src = some page) (resident : page.frame = some id)
    (owned : c.frames.find? id = some frame) (same : src.vpn = dst.vpn) :
    (c.share src dst page id frame).Level := by
  have level : ∀ a ∈ frame.owners ++ [dst], a.vpn = src.vpn := fun a ha => by
    rcases List.mem_append.1 ha with ha | ha
    · exact h id frame owned a ha src (hs.owner found resident owned)
    · rw [List.mem_singleton.1 ha, same]
  refine h.update (FrameTable.find?_update_eq _ _ _) fun f hf a ha b hb => ?_
  cases hf
  rw [level a ha, level b hb]

theorem Step.level (h : Step c ds c') (hs : c.Sound) (hc : c.Level)
    (shared : ∀ a b whole, .share a b whole ∈ ds → a.vpn = b.vpn) : c'.Level := by
  cases h with
  | acquire =>
      obtain ⟨-, -, hfind, -⟩ := hs.add_frame ⟨_, []⟩
      exact hc.update hfind fun f hf a ha => by cases hf; exact nomatch ha
  | @evict _ ref _ id phys _ _ _ saved =>
      obtain ⟨swap, files, rfl⟩ := saved.core_eq
      have cleared : (c.setFrame id ⟨phys, []⟩).Level := hc.setFrame ref nofun
      exact cleared.of_frames rfl
  | fill _ _ _ filled =>
      obtain ⟨swap, programs, rfl, -⟩ := filled.core_eq
      exact (hc.setFrame _ fun _ => List.mem_singleton.1).of_frames rfl
  | refuse => exact hc.update (FrameTable.find?_remove_eq _ _) nofun
  | fail _ _ _ _ made =>
      obtain ⟨programs, rfl, -⟩ := made.core_eq
      exact hc.update (FrameTable.find?_remove_eq _ _) nofun
  | copy _ _ owned =>
      exact ((hc.diverge owned).setFrame _ fun _ => List.mem_singleton.1).of_frames rfl
  | lose _ _ owned =>
      exact (hc.diverge owned).update (FrameTable.find?_remove_eq _ _) nofun
  | share found _ _ resident owned =>
      exact (hc.share hs found resident owned (shared _ _ _ List.mem_cons_self)).of_frames rfl
  | shareHalf found _ _ resident owned _ mapped =>
      have hshare := hc.share hs found resident owned (shared _ _ _ List.mem_cons_self)
      rcases mapped with rfl | rfl
      · exact hshare
      · exact hshare.of_frames rfl
  | drop _ _ owned disposed =>
      obtain ⟨swap, files, rfl⟩ := disposed.core_eq
      exact Level.disown (c := Core.unmap { c with pages := _, swap, files } _) hc owned _
  | dropAway _ _ disposed =>
      obtain ⟨swap, files, rfl⟩ := disposed.core_eq
      exact hc.of_frames rfl
  | _ => exact hc

theorem Steps.level (h : Steps c ds c') (hs : c.Sound) (hc : c.Level)
    (shared : ∀ a b whole, .share a b whole ∈ ds → a.vpn = b.vpn) : c'.Level := by
  induction h with
  | refl => exact hc
  | tail run step ih =>
      exact step.level (run.sound hs) (ih fun a b w hm => shared a b w (List.mem_append_left _ hm))
        fun a b w hm => shared a b w (List.mem_append_right _ hm)

theorem CopiesAll.level {src dst : SpaceId} {vpns : List PageNum} {done : Bool}
    (h : CopiesAll src dst c vpns done ds c') {whole : Bool} (hm : .share a b whole ∈ ds) :
    a.vpn = b.vpn := by
  have page {c : Core} {vpn : PageNum} {done : Bool} {ds : List Deed}
      (h : c.Copies ⟨src, vpn⟩ ⟨dst, vpn⟩ done ds) (hm : .share a b whole ∈ ds) : a.vpn = b.vpn := by
    cases h with
    | absent | failed => exact nomatch hm
    | unused => exact nomatch List.mem_singleton.1 hm
    | shared | half =>
        cases List.mem_singleton.1 hm
        rfl
  induction h with
  | nil => exact nomatch hm
  | next _ copies _ _ ih =>
      rcases List.mem_append.1 hm with hm | hm
      · exact page copies hm
      · exact ih hm
  | stop _ copies => exact page copies hm

end Core

theorem Operation.Does.level {c c' : Core} {ds : List Deed} {op : Operation} {ans : Answer}
    (h : Does c c' op ans ds) {whole : Bool} (hm : .share a b whole ∈ ds) : a.vpn = b.vpn := by
  obtain ⟨src, dst, order, done, rfl, rfl, -⟩ := h.shares hm
  cases h with
  | looked looks => exact looks.elim
  | forked _ copies =>
      rcases List.mem_append.1 hm with hm | hm
      · exact copies.level hm
      · exact nomatch List.mem_singleton.1 hm
  | notForked copies => exact copies.level hm

theorem Operation.perform_level {op : Operation} {ans : Answer} (hs : m.core.Sound)
    (level : m.core.Level) (h : op.perform m = .ok ans m') : m'.core.Level := by
  cases op.perform_comes hs h with
  | absent _ run => exact run.level hs level nofun
  | ran first run does =>
      exact run.level (first.sound hs) (first.level hs level nofun) fun a b w hm => does.level hm
  | tampered _ first core =>
      rw [core]
      exact (first.level hs level nofun).of_frames rfl

theorem Machine.Reaches.level {n : Nat} {loan : HandleCount} (run : m.Reaches m')
    (tidy : m.Tidy n loan) (h : m.core.Level) : m'.core.Level :=
  run.keep (fun tidy level answered => Operation.perform_level tidy.sound level answered)
    (fun _ h => h) tidy h

theorem Machine.fresh_level (frames : Nat) (sectors : Option Nat) (files : List File)
    (allocator : Allocator := .buddy) :
    (Machine.fresh frames sectors files allocator).core.Level := nofun

end DemandPaging
