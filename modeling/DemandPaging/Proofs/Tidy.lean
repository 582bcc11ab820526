import DemandPaging.Proofs.Endings
import DemandPaging.Proofs.Lending
import DemandPaging.Proofs.Spaces
import DemandPaging.Proofs.Surroundings

/-!
What holds of a machine between any two requests, after failures of every kind too: pages, frames,
swap slots and open handles are all accounted for. What the pager does with a page keeps it so, and
panics only when there is no memory to be had.
-/

namespace DemandPaging

open DemandPaging.Core
open Function (update update_self update_of_ne)

namespace Core

def BusyBut (c : Core) (id : FrameId) : Prop :=
  ∀ i frame, i ≠ id → c.frames.find? i = some frame → frame.owners ≠ []

def Busy (c : Core) : Prop := ∀ id frame, c.frames.find? id = some frame → frame.owners ≠ []

def Charted (c : Core) : Prop :=
  ∀ ref count, c.regions.find? ref = some count → ref.vpn.val + count < wordBound

end Core

/-- Nothing is lost and nothing is held by nobody; the handles on loan are those that belong to no
page. -/
structure Machine.Tidy (n : Nat) (loan : HandleCount) (m : Machine) : Prop where
  sound : m.core.Sound
  accounted : m.core.Accounted n
  busy : m.core.Busy
  charted : m.core.Charted
  handles : m.handles = loan + m.core.lent

variable {α β : Type} {n : Nat} {loan loan' : HandleCount} {m m' : Machine} {ref : PageRef} {page : Page}
  {id : FrameId} {frame : Frame} {E : Panic → Machine → Prop}

namespace Core

variable {c c' : Core} {ds : List Deed} {left : Option Frame}

theorem Busy.update {frames : FrameId → Option Frame} (h : c.BusyBut id)
    (hf : frames = update c.frames.find? id left)
    (hleft : ∀ frame, left = some frame → frame.owners ≠ []) {i : FrameId} (hi : frames i = some frame) :
    frame.owners ≠ [] := by
  rw [hf] at hi
  by_cases he : i = id
  · subst he
    rw [update_self] at hi
    exact hleft frame hi
  · rw [update_of_ne he] at hi
    exact h i frame he hi

theorem Busy.but (h : c.Busy) (id : FrameId) : c.BusyBut id := fun i frame _ hi => h i frame hi

theorem Busy.of_frames (h : c.Busy) (same : c'.frames = c.frames) : c'.Busy := fun i frame hi =>
  h i frame (same ▸ hi)

theorem Spares.busyBut (h : c.Spares c' id) (hb : c.Busy) : c'.BusyBut id := fun i frame hi hf =>
  hb i frame (h.others i hi ▸ hf)

theorem Claims.busy {r : PageKind × Bool} (h : c.Claims ref page id r ds c') (hb : c.BusyBut id) :
    c'.Busy := by
  obtain ⟨left, hframes, howned⟩ := h.frames
  intro i frame hi
  refine Busy.update hb hframes (fun frame hl => ?_) hi
  rw [howned frame hl]
  exact List.cons_ne_nil _ _

theorem disown_frames (c : Core) (id : FrameId) (frame : Frame) (ref : PageRef) :
    ∃ left memory, (c.disown id frame ref).frames.find? = update c.frames.find? id left ∧
      Leaves frame ref c.memory left memory := by
  obtain ⟨frames, memory, left, heq, hframes, hleaves, -⟩ := disown_eq c id frame ref
  exact ⟨left, memory, heq ▸ hframes, hleaves⟩

theorem disown_owners (c : Core) (id : FrameId) (frame : Frame) (ref : PageRef) :
    ∃ left, (c.disown id frame ref).frames.find? = update c.frames.find? id left ∧
      ∀ frame', left = some frame' → frame'.owners ≠ [] := by
  obtain ⟨left, _, hframes, hleaves⟩ := disown_frames c id frame ref
  refine ⟨left, hframes, fun frame' hl => ?_⟩
  cases hleaves with
  | others used =>
      cases hl
      exact used
  | nobody => exact nomatch hl

theorem disown_busy (hb : c.Busy) (id : FrameId) (frame : Frame) (ref : PageRef) :
    (c.disown id frame ref).Busy := by
  obtain ⟨left, hframes, howned⟩ := disown_owners c id frame ref
  exact fun i f hi => Busy.update (hb.but id) hframes howned hi

theorem Parts.busy {old new : FrameId} {done : Bool} (h : c.Parts ref page old new done ds c')
    (hb : c.BusyBut new) : c'.Busy := by
  have hdiverge (shared : Frame) (phys : PhysPage) :
      (c.diverge ref old shared phys).BusyBut new := by
    obtain ⟨left, hframes, howned⟩ :=
      disown_owners (c.write phys (c.memory.read shared.page)) old shared ref
    intro i f hi hf
    change (c.diverge ref old shared phys).frames.find? = _ at hframes
    rw [hframes] at hf
    by_cases he : i = old
    · subst he
      rw [update_self] at hf
      exact howned f hf
    · rw [update_of_ne he] at hf
      exact hb i f hi hf
  cases h with
  | @copied shared phys =>
      refine fun i f hi => Busy.update (hdiverge shared phys) (FrameTable.find?_update_eq _ _ _) ?_ hi
      intro f hf
      cases hf
      exact List.cons_ne_nil _ _
  | @lost shared phys =>
      exact fun i f hi => Busy.update (hdiverge shared phys) (FrameTable.find?_remove_eq _ _) nofun hi

theorem Step.busy_drop (h : Step c [.drop ref] c') (hb : c.Busy) : c'.Busy := by
  cases h with
  | dropAway found away disposed =>
      obtain ⟨swap, files, rfl⟩ := disposed.core_eq
      exact hb
  | drop found resident owned disposed =>
      obtain ⟨swap, files, rfl⟩ := disposed.core_eq
      exact disown_busy (c := { c with
        pages := c.pages.erase ref, swap, files, mappings := _ }) hb _ _ _
  | fill _ _ _ filled => exact (filled.settles.1 _ List.mem_cons_self).elim

theorem Step.busy_share {src dst : PageRef} {whole : Bool} (h : Step c [.share src dst whole] c')
    (hb : c.Busy) : c'.Busy := by
  have hshare (page : Page) (id : FrameId) (frame : Frame) : (c.share src dst page id frame).Busy := by
    refine fun i f hi => Busy.update (hb.but id) (FrameTable.find?_update_eq _ _ _) ?_ hi
    intro f hf
    cases hf
    exact List.append_ne_nil_of_right_ne_nil _ (List.cons_ne_nil _ _)
  cases h with
  | share => exact hshare _ _ _
  | shareHalf _ _ _ _ _ _ mapped =>
      rcases mapped with rfl | rfl
      · exact hshare _ _ _
      · exact hshare _ _ _
  | fill _ _ _ filled => exact (filled.settles.1 _ List.mem_cons_self).elim

theorem Steps.charted (h : Steps c ds c') (hc : c.Charted) (uncharted : ∀ t, .chart t ∉ ds) :
    c'.Charted := by
  rw [Charted, h.regions uncharted]
  exact hc

end Core

namespace Machine.Tidy

theorem steps {ds : List Deed} (h : m.Tidy n loan) (run : Steps m.core ds m'.core)
    (uncharted : ∀ t, .chart t ∉ ds) (busy : m'.core.Busy)
    (handles : m'.handles = loan' + m'.core.lent) : m'.Tidy n loan' :=
  ⟨run.sound h.sound, run.accounted h.sound h.accounted, busy, run.charted h.charted uncharted, handles⟩

theorem quiet {ds : List Deed} (h : m.Tidy n loan) (run : Steps m.core ds m'.core)
    (quiet : ∀ d ∈ ds, d.Quiet) (uncharted : ∀ t, .chart t ∉ ds) (busy : m'.core.Busy)
    (handles : m'.handles = m.handles) : m'.Tidy n loan :=
  h.steps run uncharted busy (by rw [handles, h.handles, run.lent quiet])

theorem of_core (h : m.Tidy n loan) (core : m'.core = m.core)
    (handles : m'.handles + loan = m.handles + loan') : m'.Tidy n loan' := by
  refine ⟨core ▸ h.sound, core ▸ h.accounted, core ▸ h.busy, core ▸ h.charted, ?_⟩
  have hsum : m'.handles + loan = loan' + m'.core.lent + loan := by
    rw [handles, h.handles, core]
    ac_rfl
  exact add_right_cancel hsum

theorem same (h : m.Tidy n loan) (core : m'.core = m.core) (handles : m'.handles = m.handles) :
    m'.Tidy n loan :=
  h.of_core core (by rw [handles])

end Machine.Tidy

theorem touch_tidy (h : m.Tidy n loan) (found : m.core.pages.find? ref = some page) :
    Ends Exhausted (touch ref page) m fun _ m' => m'.Tidy n loan := by
  refine touch_stops.imp fun page' m' hrun _ => ?_
  obtain ⟨-, hm'⟩ := touch_core hrun
  have hstep : Step m.core [] m'.core := hm' ▸ .touch found
  exact h.quiet hstep.steps nofun nofun (h.busy.of_frames (by rw [hm']; rfl))
    (touch_keeps _ _ hrun)

theorem remap_tidy (h : m.Tidy n loan) (found : m.core.pages.find? ref = some page)
    (resident : page.frame = some id) (owned : m.core.frames.find? id = some frame) :
    Ends E (remap (page.entryRef ref) frame.page page.mappedWritable) m fun _ m' => m'.Tidy n loan := by
  refine (remap_safe _ _ _).ends fun done m' hrun => ?_
  have hframes : m'.core.frames = m.core.frames := by
    rcases remap_core hrun with ⟨-, hm'⟩ | ⟨-, hm', -⟩
    · rw [hm']
      rfl
    · rw [hm']
  exact h.quiet (remap_steps found resident owned hrun) nofun nofun (h.busy.of_frames hframes)
    (remap_keeps _ _ _ hrun)

theorem claimVacant_tidy (h : m.Tidy n loan) (found : m.core.pages.find? ref = some page)
    (away : page.frame = none) :
    Ends Exhausted (claimVacant ref page) m fun _ m' => m'.Tidy n loan := by
  refine (claimVacant_stops h.sound h.accounted found away).imp fun done m' hrun _ => ?_
  obtain ⟨-, taken, spares, -, link_call, filled, claims, left⟩ :=
    claimVacant_claimed h.sound hrun
  obtain ⟨hsteps, -, -⟩ := allocateFrame_core h.sound taken
  have found₁ := spares.found_away found away
  have hstep := claims.step found₁ away
  refine h.steps (hsteps.trans hstep.steps) (fun t ht => ?_) (claims.busy (spares.busyBut h.busy)) ?_
  · exact claims.settles.1 _ ht
  · obtain ⟨p, hp, hpages⟩ := claims.pages
    have hlent := lent_set (some p) hpages
    have hfilled := mapAndFill_handles filled
    simp only [found₁, Option.elim_some, hp, hsteps.lent nofun] at hlent
    rw [(link_keeps _ _ : KeepsHandles _) link_call, (allocateFrame_keeps : KeepsHandles _) taken,
      h.handles, ← Machine.handles_congr left.1, add_assoc, ← hlent, ← add_assoc] at hfilled
    exact add_right_cancel hfilled

theorem breakSharing_tidy {old : FrameId} (h : m.Tidy n loan)
    (found : m.core.pages.find? ref = some page) (resident : page.frame = some old) :
    Ends Exhausted (breakSharing ref page old) m fun _ m' => m'.Tidy n loan := by
  refine (breakSharing_stops h.sound h.accounted found resident).imp fun done m' hrun _ => ?_
  have handles := breakSharing_handles _ _ _ hrun
  cases breakSharing_breaks h.sound found resident hrun with
  | alone _ _ run same => exact h.quiet run nofun nofun (h.busy.of_frames same) handles
  | @parted m₁ m₂ new ds touched taken found₂ parts =>
      have stamped : m₁.core = m.core.stamp ref page := congrArg Machine.core touched
      have hstamp : Step m.core [] m₁.core := stamped ▸ .touch found
      obtain ⟨hsteps, -, hspares⟩ := allocateFrame_core (hstamp.sound h.sound) taken
      have hbusy₁ : m₁.core.Busy := h.busy.of_frames (by rw [stamped]; rfl)
      have hstep := parts.step found₂ resident
      refine h.quiet ((hstamp.steps.trans hsteps).trans hstep.steps) (fun d hd => ?_) (fun t ht => ?_)
        (parts.busy (hspares.busyBut hbusy₁)) handles
      · rw [parts.loses d hd]
        trivial
      · exact nomatch parts.loses _ ht

theorem addPage_safe (ref : PageRef) (page : Page) : Safe (addPage ref page) :=
  (page?_safe ref).bind fun found => by
    cases found with
    | some _ => exact (emit_safe _).bind fun _ => page.kind.close_safe.bind fun _ => .pure _
    | none => exact (setPage_safe _ _).bind fun _ => .pure _

theorem addPage_handles {added : Bool} (h : addPage ref page m = .ok added m') :
    m'.handles + (if added then 0 else page.kind.handles) = m.handles := by
  obtain ⟨found, _, h₁, h⟩ := bind_ok.1 h
  obtain ⟨-, rfl⟩ := page?_core h₁
  cases found with
  | some _ =>
      obtain ⟨_, m₁, h₂, h⟩ := bind_ok.1 h
      obtain ⟨_, h₃, rfl⟩ := bind_pure_ok.1 h
      rw [← (emit_files _).handles h₂]
      exact page.kind.close_returns h₃
  | none =>
      obtain ⟨_, h₂, rfl⟩ := bind_pure_ok.1 h
      rw [(setPage_keeps _ _).handles h₂]
      exact add_zero _

theorem addPage_tidy {writable : Bool} {kind : PageKind} (h : m.Tidy n (loan + kind.handles))
    (no_slot : ∀ slot, kind ≠ .anon (some slot)) :
    Ends E (addPage ref (.fresh ref.space writable kind)) m fun _ m' => m'.Tidy n loan := by
  refine (addPage_safe _ _).ends fun added m' hrun => ?_
  have handles := addPage_handles hrun
  rcases addPage_core hrun with ⟨rfl, vacant, hm'⟩ | ⟨rfl, -, hm'⟩
  · have hstep : Step m.core [.add ref (.fresh ref.space writable kind)] m'.core :=
      hm' ▸ .add vacant no_slot
    refine h.steps hstep.steps (fun t ht => nomatch List.mem_singleton.1 ht)
      (h.busy.of_frames (by rw [hm']; rfl)) ?_
    have hlent := lent_set (some (.fresh ref.space writable kind)) (congrArg Core.pages hm')
    simp only [vacant, Option.elim_none, Option.elim_some, add_zero] at hlent
    rw [if_pos rfl, add_zero, h.handles] at handles
    rw [handles, hlent]
    exact add_right_comm _ _ _ |>.trans (add_assoc _ _ _)
  · refine h.of_core hm' ?_
    rw [← handles, if_neg Bool.false_ne_true]
    change m'.handles + (loan + kind.handles) = m'.handles + kind.handles + loan
    rw [add_comm loan, add_assoc]

theorem vacate_stops (h : m.core.Sound) (ha : m.core.Accounted n)
    (found : m.core.pages.find? ref = some page)
    (hm : m'.core = { m.core with pages := m.core.pages.erase ref }) :
    Stops E (vacate ref page) m' := by
  have hserves (slot : SwapSlot) (hk : page.kind = .anon (some slot)) : m'.swap.Serves slot := by
    rw [show m'.swap = m.swap from congrArg Core.swap hm]
    exact ha.serves h found hk
  unfold vacate
  cases hframe : page.frame with
  | none => exact PageKind.dispose_stops hserves
  | some id =>
      obtain ⟨frame, owned, -⟩ := h.owned.frame_of ref page id found hframe
      have owned' : m'.core.frames.find? id = some frame := by
        rw [hm]
        exact owned
      refine (physPage_ends owned').bind fun _ _ _ ⟨hphys, hm₁⟩ => ?_
      subst hphys hm₁
      refine (PageKind.dispose_stops hserves).bind fun _ m₁ h₁ _ => ?_
      obtain ⟨c₁, hdisposes, hc₁⟩ := PageKind.dispose_resident hframe owned' h₁
      obtain ⟨swap, files, rfl⟩ := hdisposes.core_eq
      refine (clearMapping_safe _).next fun _ m₂ h₂ => ?_
      have hframes : m₂.core.frames = m'.core.frames := by
        rw [clearMapping_core h₂, hc₁]
        rfl
      exact unlink_stops (hframes ▸ owned')

theorem Core.Step.drop_pages {c c' : Core} (h : Step c [.drop ref] c') :
    c'.pages = c.pages.erase ref := by
  cases h with
  | dropAway found away disposed =>
      obtain ⟨swap, files, rfl⟩ := disposed.core_eq
      rfl
  | drop found resident owned disposed =>
      obtain ⟨swap, files, rfl⟩ := disposed.core_eq
      exact disown_pages _ _ _ _
  | fill _ _ _ filled => exact (filled.settles.1 _ List.mem_cons_self).elim

theorem removeRef_stops (h : m.core.Sound) (ha : m.core.Accounted n) (ref : PageRef) :
    Stops E (removeRef ref) m := by
  refine (page?_safe ref).next fun found m₁ h₁ => ?_
  obtain ⟨hfound, rfl⟩ := page?_core h₁
  cases found with
  | none => exact (Safe.pure _).stops
  | some page =>
      refine (dropPage_safe ref).next fun _ m₁ h₂ => ?_
      refine Ends.bind (Q := fun _ _ => True) ?_ fun _ _ _ _ => (Safe.pure _).stops
      refine (vacate_stops h ha hfound.symm (dropPage_core h₂)).bind fun _ _ _ _ => ?_
      exact page.kind.close_safe.stops

theorem removeRef_handles {removed : Bool} (h : removeRef ref m = .ok removed m') :
    m'.handles + (m.core.pages.find? ref).elim 0 (fun page => page.kind.handles) = m.handles := by
  rcases removeRef_parts h with ⟨-, absent, rfl⟩ | ⟨-, page, m₁, m₂, found, dropped, vacated, closed⟩
  · rw [absent]
    exact add_zero _
  · rw [found, ← (dropPage_keeps _).handles dropped, ← (vacate_keeps _ _ : KeepsHandles _) vacated]
    exact page.kind.close_returns closed

theorem removeRef_tidy (h : m.Tidy n loan) (ref : PageRef) :
    Ends E (removeRef ref) m fun _ m' => m'.Tidy n loan := by
  refine (removeRef_stops h.sound h.accounted ref).imp fun removed m' hrun _ => ?_
  have handles := removeRef_handles hrun
  rcases removeRef_core hrun with ⟨-, vacant, hm'⟩ | ⟨-, -, hstep⟩
  · rw [vacant, Option.elim_none, add_zero] at handles
    exact h.same hm' handles
  · refine h.steps hstep.steps (fun t ht => nomatch List.mem_singleton.1 ht) (hstep.busy_drop h.busy) ?_
    have hlent := lent_set none hstep.drop_pages
    rw [h.handles, ← add_zero m.core.lent] at handles
    rw [Option.elim_none] at hlent
    rw [← hlent, ← add_assoc] at handles
    exact add_right_cancel handles

theorem shareFrame_stops {src dst : PageRef} (owned : m.core.frames.find? id = some frame) :
    Stops E (shareFrame src dst page id) m := by
  refine page.kind.duplicate_safe.next fun kind m₁ h₁ => ?_
  obtain ⟨hm₁, -⟩ := PageKind.duplicate_core h₁
  cases kind with
  | none => exact ((emit_safe _).bind fun _ => Safe.pure _).stops
  | some kind =>
      refine (addPage_safe _ _).next fun added m₂ h₂ => ?_
      have hframes : m₂.core.frames = m.core.frames := by
        rcases addPage_core h₂ with ⟨-, -, hm₂⟩ | ⟨-, -, hm₂⟩
        · rw [hm₂, ← hm₁]
          rfl
        · rw [hm₂, hm₁]
      cases added with
      | false => exact (Safe.pure _).stops
      | true =>
          have owned₂ : m₂.core.frames.find? id = some frame := hframes ▸ owned
          refine (link_stops owned₂).bind fun _ m₃ h₃ _ => ?_
          obtain ⟨frame', -, hm₃⟩ := link_core h₃
          have owned₃ : m₃.core.frames.find? id =
              some { frame' with owners := frame'.owners ++ [dst] } := by
            rw [hm₃]
            exact FrameTable.find?_update_self
          refine (physPage_ends owned₃).bind fun _ _ _ _ => ?_
          refine (setPage_safe _ _).next fun _ _ _ => (remap_safe _ _ _).next fun mapped _ _ => ?_
          exact (Safe.ite ((install_safe _ _ _).bind fun _ => Safe.ite
            ((emit_safe _).bind fun _ => Safe.pure _) (Safe.pure _)) (Safe.pure _)).stops

theorem Machine.MapsBoth.rest {src dst : PageRef} {phys : PhysPage} {done : Bool}
    (h : m.MapsBoth src dst phys done m') :
    m'.handles = m.handles ∧ m'.core.pages = m.core.pages := by
  cases h with
  | none refused => exact ⟨(remap_keeps _ _ _).handles refused, by rw [(remap_refused refused).1]⟩
  | one remapped refused =>
      rw [(install_keeps _ _ _).handles refused, (remap_keeps _ _ _).handles remapped,
        (install_refused refused).1, remap_done remapped]
      exact ⟨rfl, rfl⟩
  | both remapped entered told =>
      rw [(emit_files _).handles told, (install_keeps _ _ _).handles entered,
        (remap_keeps _ _ _).handles remapped, emit_core told, install_granted entered,
        remap_done remapped]
      exact ⟨rfl, rfl⟩

theorem shareFrame_handles {src dst : PageRef} {done : Bool}
    (found : m.core.pages.find? src = some page) (h : shareFrame src dst page id m = .ok done m') :
    m'.handles + m.core.lent = m.handles + m'.core.lent := by
  cases shareFrame_shares h with
  | notCopied copied told =>
      rw [(emit_files _).handles told, page.kind.duplicate_lends copied, emit_core told,
        (PageKind.duplicate_core copied).1]
      exact congrArg (· + m.core.lent) (add_zero _)
  | notAdded copied refused =>
      have handles := addPage_handles refused
      rw [page.kind.duplicate_lends copied] at handles
      rw [addPage_refused refused, (PageKind.duplicate_core copied).1]
      exact congrArg (· + m.core.lent) (add_right_cancel handles)
  | @mapped kind _ _ _ m₂ m₃ m₄ _ copied added linked _ marked maps =>
      have hm₁ := (PageKind.duplicate_core copied).1
      have hadded := addPage_handles added
      rw [page.kind.duplicate_lends copied] at hadded
      obtain ⟨vacant, hm₂⟩ := addPage_added added
      rw [hm₁] at vacant hm₂
      obtain ⟨frame', -, hm₃⟩ := link_core linked
      obtain ⟨hrest, hpages⟩ := maps.rest
      have hcopied := lent_set (some _) (congrArg Core.pages hm₂)
      have found₃ : m₃.core.pages.find? src = some page := by
        rw [hm₃, hm₂]
        exact (Table.find?_insert_of_ne (Ne.symm (ne_of_found found vacant))).trans found
      have hmarked : (m₃.core.setPage src { page with cow := true }).lent = m₃.core.lent :=
        lent_setPage found₃ rfl
      have hlent : m'.core.lent = m₃.core.lent := by
        rw [← hmarked, ← setPage_core marked]
        exact congrArg (fun pages : Table PageRef Page => pages.total _) hpages
      have hlinked : m₃.core.lent = m₂.core.lent := by rw [hm₃]; rfl
      simp only [vacant, Option.elim_none, Option.elim_some, add_zero] at hcopied
      rw [if_pos rfl, add_zero] at hadded
      rw [hrest, (setPage_keeps _ _).handles marked, (link_keeps _ _).handles linked, hadded, hlent,
        hlinked, hcopied]
      exact (add_assoc _ _ _).trans (congrArg (m.handles + ·) (add_comm _ _))

theorem shareFrame_tidy {src dst : PageRef} (h : m.Tidy n loan)
    (found : m.core.pages.find? src = some page) (resident : page.frame = some id) :
    Ends E (shareFrame src dst page id) m fun _ m' => m'.Tidy n loan := by
  obtain ⟨frame, owned, -⟩ := h.sound.owned.frame_of src page id found resident
  refine (shareFrame_stops owned).imp fun done m' hrun _ => ?_
  have handles : m'.handles = loan + m'.core.lent := by
    have hkept := shareFrame_handles found hrun
    rw [h.handles, add_right_comm] at hkept
    exact add_right_cancel hkept
  rcases shareFrame_core h.sound found resident hrun with ⟨-, -, hstep⟩ | ⟨-, hm' | hstep⟩
  · exact h.steps hstep.steps (fun t ht => nomatch List.mem_singleton.1 ht) (hstep.busy_share h.busy)
      handles
  · exact ⟨hm' ▸ h.sound, hm' ▸ h.accounted, hm' ▸ h.busy, hm' ▸ h.charted, handles⟩
  · exact h.steps hstep.steps (fun t ht => nomatch List.mem_singleton.1 ht) (hstep.busy_share h.busy)
      handles

theorem Machine.fresh_tidy (n : Nat) (sectors : Option Nat) (files : List File)
    (allocator : Allocator := .buddy) :
    (Machine.fresh n sectors files allocator).Tidy n
      (Machine.fresh n sectors files allocator).handles where
  sound := fresh_sound n sectors files allocator
  accounted := fresh_accounted n sectors files allocator
  busy := nofun
  charted := nofun
  handles := (add_zero _).symm

end DemandPaging
