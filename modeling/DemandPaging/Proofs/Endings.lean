import DemandPaging.Proofs.Stock

/-!
How computations of the kernel end: with a result, or in a panic. Most of them never panic. The others
do when a part of the pager breaks a rule of another part, which the state rules out, or when there
is no memory to be had.
-/

namespace DemandPaging

open DemandPaging.Core

variable {α β : Type} {m m' : Machine} {E E' : Panic → Machine → Prop} {Q R : α → Machine → Prop}

/-- The computation ends with a result that is as `Q` says, or in a panic that `E` allows. -/
def Ends (E : Panic → Machine → Prop) (x : KernelM α) (m : Machine) (Q : α → Machine → Prop) :
    Prop :=
  match x m with
  | .ok a m' => Q a m'
  | .error e m' => E e m'

abbrev Stops (E : Panic → Machine → Prop) (x : KernelM α) (m : Machine) : Prop :=
  Ends E x m fun _ _ => True

namespace Ends

theorem ok {x : KernelM α} {a : α} (h : Ends E x m Q) (run : x m = .ok a m') : Q a m' := by
  unfold Ends at h
  rw [run] at h
  exact h

theorem error {x : KernelM α} {e : Panic} (h : Ends E x m Q) (run : x m = .error e m') : E e m' := by
  unfold Ends at h
  rw [run] at h
  exact h

theorem result {x : KernelM α} (h : Ends (fun _ _ => False) x m Q) :
    ∃ a m', x m = .ok a m' ∧ Q a m' := by
  cases hrun : x m with
  | ok a m' => exact ⟨a, m', rfl, h.ok hrun⟩
  | error e m' => exact (h.error hrun).elim

theorem pure {a : α} (h : Q a m) : Ends E (Pure.pure a) m Q := h

theorem bind {x : KernelM α} {f : α → KernelM β} {R : β → Machine → Prop} (hx : Ends E x m Q)
    (hf : ∀ a m₁, x m = .ok a m₁ → Q a m₁ → Ends E (f a) m₁ R) : Ends E (x >>= f) m R := by
  unfold Ends
  change match EStateM.bind x f m with
    | .ok a m' => R a m'
    | .error e m' => E e m'
  unfold EStateM.bind
  cases hrun : x m with
  | ok a m₁ => exact hf a m₁ hrun (hx.ok hrun)
  | error e m₁ => exact hx.error hrun

theorem mono {x : KernelM α} (h : Ends E x m Q) (hE : ∀ e m', E e m' → E' e m')
    (hQ : ∀ a m', x m = .ok a m' → Q a m' → R a m') : Ends E' x m R := by
  unfold Ends
  cases hrun : x m with
  | ok a m' => exact hQ a m' hrun (h.ok hrun)
  | error e m' => exact hE e m' (h.error hrun)

theorem imp {x : KernelM α} (h : Ends E x m Q) (hQ : ∀ a m', x m = .ok a m' → Q a m' → R a m') :
    Ends E x m R :=
  h.mono (fun _ _ he => he) hQ

theorem after {x : KernelM α} {f : α → KernelM β} {a : α} {m₁ : Machine} {R : β → Machine → Prop}
    (h : x m = .ok a m₁) (hf : Ends E (f a) m₁ R) : Ends E (x >>= f) m R := by
  have known : Ends E x m fun b m' => b = a ∧ m' = m₁ := by
    unfold Ends
    rw [h]
    exact ⟨rfl, rfl⟩
  refine known.bind fun b m' _ same => ?_
  obtain ⟨rfl, rfl⟩ := same
  exact hf

end Ends

def Safe (x : KernelM α) : Prop := ∀ ⦃m e m'⦄, x m ≠ .error e m'

namespace Safe

theorem ends {x : KernelM α} (hx : Safe x) (h : ∀ a m', x m = .ok a m' → Q a m') : Ends E x m Q := by
  unfold Ends
  cases hrun : x m with
  | ok a m' => exact h a m' hrun
  | error e m' => exact (hx hrun).elim

theorem stops {x : KernelM α} (hx : Safe x) : Stops E x m := hx.ends fun _ _ _ => trivial

theorem next {x : KernelM α} {f : α → KernelM β} {R : β → Machine → Prop} (hx : Safe x)
    (hf : ∀ a m₁, x m = .ok a m₁ → Ends E (f a) m₁ R) : Ends E (x >>= f) m R :=
  (hx.stops (m := m)).bind fun a m₁ run _ => hf a m₁ run

theorem pure (a : α) : Safe (Pure.pure a) := nofun

theorem bind {x : KernelM α} {f : α → KernelM β} (hx : Safe x) (hf : ∀ a, Safe (f a)) :
    Safe (x >>= f) := fun _ _ _ run =>
  Ends.error (E := fun _ _ => False) (hx.next fun a _ _ => (hf a).stops) run

theorem get : Safe (MonadState.get : KernelM Machine) := nofun

theorem set (s : Machine) : Safe (MonadStateOf.set s : KernelM PUnit) := nofun

theorem modify (f : Machine → Machine) : Safe (modify f : KernelM PUnit) := nofun

theorem modifyGet (f : Machine → α × Machine) : Safe (modifyGet f : KernelM α) := nofun

theorem ite {p : Prop} [Decidable p] {x y : KernelM α} (hx : Safe x) (hy : Safe y) :
    Safe (if p then x else y) := by
  split
  · exact hx
  · exact hy

end Safe

theorem emit_safe (event : Event) : Safe (emit event) := Safe.modify _

theorem setPage_safe (ref : PageRef) (page : Page) : Safe (setPage ref page) := Safe.modify _

theorem dropPage_safe (ref : PageRef) : Safe (dropPage ref) := Safe.modify _

theorem page?_safe (ref : PageRef) : Safe (page? ref) := Safe.get.bind fun _ => Safe.pure _

theorem readPhys_safe (phys : PhysPage) : Safe (readPhys phys) := Safe.get.bind fun _ => Safe.pure _

theorem writePhys_safe (phys : PhysPage) (bytes : PageBytes) : Safe (writePhys phys bytes) := Safe.modify _

theorem clearMapping_safe (entry : PageRef) : Safe (clearMapping entry) := Safe.modify _

theorem setDirty_safe (entry : PageRef) (dirty : Bool) : Safe (setDirty entry dirty) := Safe.modify _

theorem isDirty_safe (entry : PageRef) : Safe (isDirty entry) :=
  Safe.get.bind fun m => by
    split
    · exact Safe.pure _
    · exact Safe.pure _

theorem setFrame_safe (id : FrameId) (frame : Frame) : Safe (setFrame id frame) := Safe.modify _

theorem install_safe (entry : PageRef) (phys : PhysPage) (writable : Bool) :
    Safe (install entry phys writable) :=
  (Safe.modifyGet _).bind fun _ => .ite ((Safe.modify _).bind fun _ => Safe.pure _) (Safe.pure _)

theorem remap_safe (entry : PageRef) (phys : PhysPage) (writable : Bool) :
    Safe (remap entry phys writable) :=
  (isDirty_safe _).bind fun _ => (install_safe _ _ _).bind fun _ =>
    .ite ((setDirty_safe _ _).bind fun _ => Safe.pure _) (Safe.pure _)

theorem useFile_safe (id : FileId) (f : File → α × File) : Safe (useFile id f) := Safe.modifyGet _

theorem openFile_safe (id : FileId) : Safe (openFile id) := useFile_safe id _

theorem closeFile_safe (id : FileId) : Safe (closeFile id) := useFile_safe id _

namespace FileBacking

variable (backing : FileBacking)

theorem duplicate_safe : Safe backing.duplicate :=
  (useFile_safe _ _).bind fun _ => .ite (Safe.pure _) (Safe.pure _)

theorem close_safe : Safe backing.close := closeFile_safe _

theorem load_safe : Safe backing.load := (useFile_safe _ _).bind fun _ => Safe.pure _

theorem writeBack_safe (bytes : PageBytes) : Safe (backing.writeBack bytes) :=
  (useFile_safe _ _).bind fun _ => .ite (Safe.pure _) ((emit_safe _).bind fun _ => Safe.pure _)

end FileBacking

namespace Initializer

theorem duplicate_safe (init : Initializer) : Safe init.duplicate := by
  cases init with
  | segment backing => exact backing.duplicate_safe.bind fun _ => Safe.pure _
  | program id =>
      refine Safe.get.bind fun m => ?_
      split
      · exact Safe.pure _
      · exact (Safe.set _).bind fun _ => Safe.pure _
  | alwaysFail => exact Safe.pure _

theorem close_safe (init : Initializer) : Safe init.close := by
  cases init with
  | segment backing => exact backing.close_safe
  | program id => exact Safe.pure _
  | alwaysFail => exact Safe.pure _

theorem run_safe (init : Initializer) (bytes : PageBytes) : Safe (init.run bytes) := by
  cases init with
  | segment backing =>
      exact backing.load_safe.bind fun _ => backing.close_safe.bind fun _ => Safe.pure _
  | program id =>
      refine Safe.get.bind fun m => ?_
      split
      · exact Safe.pure _
      · exact (Safe.set _).bind fun _ => Safe.pure _
  | alwaysFail => exact Safe.pure _

end Initializer

theorem closeInitializer_safe (init : Option Initializer) : Safe (closeInitializer init) := by
  cases init with
  | none => exact Safe.pure _
  | some init => exact init.close_safe

namespace PageTarget

theorem duplicate_safe (target : PageTarget) : Safe target.duplicate := by
  cases target with
  | anon => exact Safe.pure _
  | file backing => exact backing.duplicate_safe.bind fun _ => Safe.pure _

theorem close_safe (target : PageTarget) : Safe target.close := by
  cases target with
  | anon => exact Safe.pure _
  | file backing => exact backing.close_safe

end PageTarget

namespace PageKind

theorem duplicate_safe (kind : PageKind) : Safe kind.duplicate := by
  rcases kind with ⟨target, _ | init⟩ | slot | backing
  · exact target.duplicate_safe.bind fun _ => Safe.pure _
  · refine init.duplicate_safe.bind fun copy => ?_
    split
    · exact Safe.pure _
    · refine target.duplicate_safe.bind fun target' => ?_
      split
      · exact (Initializer.close_safe _).bind fun _ => Safe.pure _
      · exact Safe.pure _
  · exact Safe.pure _
  · exact backing.duplicate_safe.bind fun _ => Safe.pure _

theorem close_safe (kind : PageKind) : Safe kind.close := by
  cases kind with
  | uninit target init => exact target.close_safe.bind fun _ => closeInitializer_safe init
  | anon slot => exact Safe.pure _
  | file backing => exact backing.close_safe

end PageKind

theorem allocSlot_safe : Safe allocSlot :=
  Safe.get.bind fun m => by
    split
    · exact Safe.pure _
    · exact (Safe.set _).bind fun _ => (emit_safe _).bind fun _ => Safe.pure _

/-! What may panic, under the conditions that rule it out. -/

variable {n : Nat} {ref entry : PageRef} {page : Page} {id : FrameId} {f : Frame} {phys : PhysPage}
  {slot : SwapSlot} {kind : PageKind}

theorem frame_ends (found : m.frames.find? id = some f) :
    Ends E (frame id) m fun got m' => f = got ∧ m = m' := by
  refine Safe.get.next fun _ _ h => ?_
  obtain ⟨rfl, rfl⟩ := get_ok.1 h
  simp only [found]
  exact .pure ⟨rfl, rfl⟩

theorem physPage_ends (found : m.frames.find? id = some f) :
    Ends E (physPage id) m fun got m' => f.page = got ∧ m = m' :=
  (frame_ends found).bind fun _ _ _ ⟨hgot, hm⟩ => .pure ⟨hgot ▸ rfl, hm⟩

theorem refCount_ends (found : m.frames.find? id = some f) :
    Ends E (refCount id) m fun got m' => f.owners.length = got ∧ m = m' :=
  (frame_ends found).bind fun _ _ _ ⟨hgot, hm⟩ => .pure ⟨hgot ▸ rfl, hm⟩

theorem link_stops (found : m.frames.find? id = some f) : Stops E (link id ref) m :=
  (frame_ends found).bind fun _ _ _ _ => (setFrame_safe _ _).stops

theorem unlink_stops (found : m.frames.find? id = some f) : Stops E (unlink id ref) m :=
  (frame_ends found).bind fun _ _ _ _ => Safe.stops <|
    .ite ((Safe.modify _).bind fun _ => emit_safe _) (setFrame_safe _ _)

/-- The only ways for the kernel to stop: no page of memory is free and no frame can be taken from
anybody, or the clock has run out of numbers. -/
def Exhausted (e : Panic) (m : Machine) : Prop :=
  e = .noVictim ∧ m.memory.pool.free = 0 ∨ e = .addOverflow ∧ wordBound ≤ m.clock + 1

def OutOfTime (e : Panic) (m : Machine) : Prop := e = .addOverflow ∧ wordBound ≤ m.clock + 1

theorem tick_timed : Stops OutOfTime tick m := by
  refine Safe.get.next fun _ _ h => ?_
  obtain ⟨rfl, rfl⟩ := get_ok.1 h
  by_cases hlt : m.clock + 1 < wordBound
  · rw [checkedAdd, if_pos hlt]
    exact ((Safe.pure _).bind fun _ => (Safe.modify _).bind fun _ => Safe.pure _).stops
  · rw [checkedAdd, if_neg hlt]
    exact ⟨rfl, Nat.le_of_not_lt hlt⟩

theorem touch_timed : Stops OutOfTime (touch ref page) m :=
  tick_timed.bind fun _ _ _ _ => ((setPage_safe _ _).bind fun _ => Safe.pure _).stops

theorem touch_stops : Stops Exhausted (touch ref page) m :=
  touch_timed.mono (fun _ _ => .inr) fun _ _ _ _ => trivial

structure SwapArea.Serves (swap : SwapArea) (slot : SwapSlot) : Prop where
  roomy : swap.Roomy
  within : slot.index < swap.slots
  held : swap.holds slot = true
  used : 0 < swap.used

theorem freeSlot_stops (serves : m.swap.Serves slot) : Stops E (freeSlot slot) m := by
  refine Safe.get.next fun _ _ h => ?_
  obtain ⟨rfl, rfl⟩ := get_ok.1 h
  obtain ⟨swap, hfree⟩ := SwapArea.freeSlot_exists serves.held serves.used
  rw [hfree]
  exact ((Safe.pure _).bind fun _ => (Safe.set _).bind fun _ => emit_safe _).stops

theorem readSlot_stops (serves : m.swap.Serves slot) (bytes : PageBytes) :
    Stops E (readSlot slot bytes) m := by
  refine Safe.get.next fun _ _ h => ?_
  obtain ⟨rfl, rfl⟩ := get_ok.1 h
  obtain ⟨got, hread⟩ := SwapArea.readSlot_exists serves.roomy serves.within bytes
  rw [hread]
  exact (Safe.pure _).stops

theorem writeSlot_stops (roomy : m.swap.Roomy) (within : slot.index < m.swap.slots)
    (bytes : PageBytes) : Stops E (writeSlot slot bytes) m := by
  refine Safe.get.next fun _ _ h => ?_
  obtain ⟨rfl, rfl⟩ := get_ok.1 h
  obtain ⟨swap, hwrite⟩ := SwapArea.writeSlot_exists roomy within bytes
  rw [hwrite]
  exact ((Safe.pure _).bind fun _ => Safe.set _).stops

theorem Core.Accounted.serves {c : Core} (h : c.Accounted n) (hs : c.Sound)
    (found : c.pages.find? ref = some page) (kind : page.kind = .anon (some slot)) :
    c.swap.Serves slot := by
  obtain ⟨held, -, -⟩ := hs.slotted.held ref page slot found kind
  refine ⟨h.stored.roomy, h.stored.within slot held, held, ?_⟩
  rw [h.stored.used, Table.total_find? found, Page.slotCount_some (PageKind.slot?_eq_some.2 kind)]
  exact Nat.succ_pos _

theorem PageKind.fill_stops (serves : ∀ slot, kind = .anon (some slot) → m.swap.Serves slot) :
    Stops E (kind.fill phys) m := by
  rcases kind with ⟨target, _ | init⟩ | (_ | slot) | backing
  · cases target with
    | anon => exact ((writePhys_safe _ _).bind fun _ => Safe.pure _).stops
    | file backing =>
        exact (backing.load_safe.bind fun _ => (writePhys_safe _ _).bind fun _ => Safe.pure _).stops
  · rw [fill]
    refine init.duplicate_safe.next fun retry _ _ => ?_
    refine (readPhys_safe _).next fun _ _ _ => ?_
    refine (init.run_safe _).next fun r _ _ => ?_
    refine (writePhys_safe _ _).next fun _ _ _ => ?_
    exact (Safe.ite ((closeInitializer_safe _).bind fun _ => Safe.pure _) (Safe.pure _)).stops
  · exact ((writePhys_safe _ _).bind fun _ => Safe.pure _).stops
  · refine (readPhys_safe _).next fun _ _ h => ?_
    obtain ⟨-, rfl⟩ := readPhys_core h
    refine (readSlot_stops (serves slot rfl) _).bind fun _ _ h _ => ?_
    obtain ⟨-, rfl⟩ := readSlot_core h
    refine (writePhys_safe _ _).next fun _ m₁ h => ?_
    have hswap : m₁.swap = m.swap := congrArg Core.swap (writePhys_core h)
    exact (freeSlot_stops (hswap ▸ serves slot rfl)).bind fun _ _ _ _ => (Safe.pure _).stops
  · exact (backing.load_safe.bind fun _ => (writePhys_safe _ _).bind fun _ => Safe.pure _).stops

theorem PageKind.save_stops (roomy : m.swap.Roomy) (no_slot : kind.slot? = none) :
    Stops E (kind.save phys entry) m := by
  rcases kind with ⟨target, init⟩ | (_ | slot) | backing
  · exact (Safe.pure _).stops
  · refine allocSlot_safe.next fun got m₁ h => ?_
    rcases allocSlot_core h with ⟨rfl, -⟩ | ⟨slot, swap, rfl, halloc, hcore⟩
    · exact ((emit_safe _).bind fun _ => Safe.pure _).stops
    · obtain ⟨-, -, hlt, hdisk, hslots⟩ := SwapArea.allocSlot?_some halloc
      refine (readPhys_safe _).next fun _ _ h => ?_
      obtain ⟨-, rfl⟩ := readPhys_core h
      have hswap : m₁.swap = swap := congrArg Core.swap hcore
      have hroomy : m₁.swap.Roomy := by
        rw [hswap]
        intro disk hd
        rw [hslots]
        exact roomy disk (hdisk ▸ hd)
      refine (writeSlot_stops hroomy ?_ _).bind fun _ _ _ _ => (Safe.pure _).stops
      rw [hswap, hslots]
      exact hlt
  · exact nomatch no_slot
  · exact ((isDirty_safe _).bind fun _ => .ite ((readPhys_safe _).bind fun _ =>
      (backing.writeBack_safe _).bind fun _ => .ite ((setDirty_safe _ _).bind fun _ => Safe.pure _)
        (Safe.pure _)) (Safe.pure _)).stops

theorem PageKind.dispose_stops {held : Option PhysPage} {writable : Bool}
    (serves : ∀ slot, kind = .anon (some slot) → m.swap.Serves slot) :
    Stops E (kind.dispose held writable entry) m := by
  rcases kind with ⟨target, init⟩ | (_ | slot) | backing
  · exact (Safe.pure _).stops
  · exact (Safe.pure _).stops
  · exact freeSlot_stops (serves slot rfl)
  · cases held with
    | none => exact (Safe.pure _).stops
    | some phys =>
        exact ((isDirty_safe _).bind fun _ => .ite ((readPhys_safe _).bind fun _ =>
          (backing.writeBack_safe _).bind fun _ => .ite (setDirty_safe _ _) (Safe.pure _)) (Safe.pure _)).stops

theorem evictVictim_stops {v : Victim} (hs : m.core.Sound) (ha : m.core.Accounted n)
    (stands : v.Stands m.core) : Stops E (evictVictim v) m := by
  obtain ⟨found, owned⟩ := stands
  have hresident := hs.victim found owned
  refine (emit_safe _).next fun _ m₁ h => ?_
  have hm₁ := emit_core h
  refine (PageKind.save_stops ?_ ?_).bind fun got m₂ _ _ => ?_
  · rw [show m₁.swap = m.swap from congrArg Core.swap hm₁]
    exact ha.stored.roomy
  · exact PageKind.slot?_eq_none.2 (hs.no_slot found hresident)
  · cases got with
    | none => exact ((emit_safe _).bind fun _ => Safe.pure _).stops
    | some kind =>
        exact ((clearMapping_safe _).bind fun _ => (setPage_safe _ _).bind fun _ =>
          (setFrame_safe _ _).bind fun _ => (writePhys_safe _ _).bind fun _ =>
            (emit_safe _).bind fun _ => Safe.pure _).stops

theorem evictFirst_stops {vs : List Victim} (hs : m.core.Sound) (ha : m.core.Accounted n)
    (hvs : ∀ v ∈ vs, v.Stands m.core) : Stops E (evictFirst vs) m := by
  induction vs generalizing m with
  | nil => exact (Safe.pure _).stops
  | cons v rest ih =>
      have hv := hvs v List.mem_cons_self
      refine (evictVictim_stops hs ha hv).bind fun done m₁ h _ => ?_
      rcases evictVictim_parts hv h with ⟨rfl, -⟩ | ⟨rfl, files, hm₁, run⟩
      · exact (Safe.pure _).stops
      · rw [← hm₁] at run
        refine ih (run.sound hs) (run.accounted hs ha) fun w hw => ?_
        rw [hm₁]
        exact hvs w (List.mem_cons_of_mem v hw)

theorem Memory.free_of_acquire {memory : Memory} (h : memory.acquire? = none) :
    memory.pool.free = 0 := by
  unfold Memory.acquire? at h
  split at h
  · exact nomatch h
  · next hnone => exact Pool.free_none hnone

theorem allocateFrame_stops (hs : m.core.Sound) (ha : m.core.Accounted n) :
    Stops Exhausted allocateFrame m := by
  refine Safe.get.next fun _ _ h => ?_
  obtain ⟨rfl, rfl⟩ := get_ok.1 h
  cases htaken : m.memory.acquire? with
  | some taken => exact ((Safe.set _).bind fun _ => (emit_safe _).bind fun _ => Safe.pure _).stops
  | none =>
      have stops : Stops Exhausted evict m := by
        refine Safe.get.next fun _ _ h => ?_
        obtain ⟨rfl, rfl⟩ := get_ok.1 h
        exact evictFirst_stops hs ha fun v hv => Machine.victims_stand hv
      refine stops.bind fun got m₁ h₁ _ => ?_
      cases got with
      | some id => exact (Safe.pure _).stops
      | none =>
          refine Safe.get.next fun _ _ h => ?_
          obtain ⟨rfl, rfl⟩ := get_ok.1 h
          refine (emit_safe _).next fun _ m₂ h => .inl ⟨rfl, ?_⟩
          change m₂.core.memory.pool.free = 0
          -- the victims that were tried in vain gave up nothing
          obtain ⟨files, -, ⟨-, hm₁⟩ | ⟨v, -, had, -⟩⟩ :=
            evictFirst_parts (fun v hv => Machine.victims_stand hv) (bind_get_ok.1 h₁)
          · rw [emit_core h, hm₁]
            exact Memory.free_of_acquire htaken
          · exact nomatch had

theorem mapAndFill_stops (serves : ∀ slot, page.kind = .anon (some slot) → m.swap.Serves slot) :
    Stops E (mapAndFill ref page phys) m := by
  refine (install_safe _ _ _).next fun granted m₁ h => ?_
  have hswap : m₁.swap = m.swap := by
    rcases install_core h with ⟨-, hm⟩ | ⟨-, hm, -⟩ <;> exact congrArg Core.swap hm
  cases granted with
  | false => exact (Safe.pure _).stops
  | true =>
      refine (emit_safe _).next fun _ m₂ h => ?_
      have hswap₂ : m₂.swap = m₁.swap := congrArg Core.swap (emit_core h)
      exact PageKind.fill_stops (by rw [hswap₂, hswap]; exact serves)

theorem claimVacant_ends (late : ∀ e m, OutOfTime e m → E e m) (had : Stops E allocateFrame m)
    (hs : m.core.Sound) (ha : m.core.Accounted n) (found : m.core.pages.find? ref = some page)
    (away : page.frame = none) : Stops E (claimVacant ref page) m := by
  simp only [claimVacant, away]
  refine had.bind fun id m₁ h₁ _ => ?_
  obtain ⟨hsteps, ⟨phys, free⟩, hspares⟩ := allocateFrame_core hs h₁
  have found₁ := hspares.found_away found away
  refine (physPage_ends free).bind fun _ _ _ result => ?_
  obtain ⟨rfl, rfl⟩ := result
  refine (link_stops free).bind fun _ m₂ h₂ _ => ?_
  obtain ⟨frame, hframe, hm₂⟩ := link_core h₂
  rw [free] at hframe
  cases hframe
  have hserves (slot : SwapSlot) (hk : page.kind = .anon (some slot)) : m₂.swap.Serves slot := by
    rw [show m₂.swap = m₁.swap from congrArg Core.swap hm₂]
    exact (hsteps.accounted hs ha).serves (hsteps.sound hs) found₁ hk
  refine (mapAndFill_stops hserves).bind fun r m₃ h₃ _ => ?_
  obtain ⟨ds, hmaps⟩ := mapAndFill_core hm₂ h₃
  rcases r with ⟨kind, _ | _⟩
  · -- The frame is still there to be given up.
    have hlinked : m₃.core.frames.find? id = some ⟨phys, [ref]⟩ := by
      have hupdated : (m₁.core.setFrame id ⟨phys, [ref]⟩).frames.find? id = some ⟨phys, [ref]⟩ :=
        FrameTable.find?_update_self
      generalize m₃.core = c₃ at hmaps
      cases hmaps with
      | refused => exact hupdated
      | failed kind made =>
          obtain ⟨programs, rfl, -⟩ := made.core_eq
          exact hupdated
    refine (emit_safe _).next fun _ m₄ h₄ => ?_
    refine (clearMapping_safe _).next fun _ m₅ h₅ => ?_
    refine (setPage_safe _ _).next fun _ m₆ h₆ => ?_
    have hframes : m₆.core.frames = m₃.core.frames := by
      rw [setPage_core h₆, clearMapping_core h₅, emit_core h₄]
      rfl
    exact (unlink_stops (hframes ▸ hlinked)).bind fun _ _ _ _ => (Safe.pure _).stops
  · exact (touch_timed.mono late fun _ _ _ _ => trivial).bind fun _ _ _ _ =>
      ((emit_safe _).bind fun _ => Safe.pure _).stops

theorem claimVacant_stops (hs : m.core.Sound) (ha : m.core.Accounted n)
    (found : m.core.pages.find? ref = some page) (away : page.frame = none) :
    Stops Exhausted (claimVacant ref page) m :=
  claimVacant_ends (fun _ _ => .inr) (allocateFrame_stops hs ha) hs ha found away

theorem breakSharing_ends {old : FrameId} (late : ∀ e m, OutOfTime e m → E e m)
    (had : ∀ page' m₁ shared, touch ref page m = .ok page' m₁ →
      m₁.core.frames.find? old = some shared → shared.owners.length ≠ 1 → Stops E allocateFrame m₁)
    (hs : m.core.Sound) (found : m.core.pages.find? ref = some page)
    (resident : page.frame = some old) : Stops E (breakSharing ref page old) m := by
  refine (touch_timed.mono late fun _ _ _ _ => trivial).bind fun page' m₁ h₁ _ => ?_
  obtain ⟨hstamp, found₁⟩ := touch_step found h₁
  have hs₁ := hstamp.sound hs
  have resident₁ : page'.frame = some old := by rw [(touch_core h₁).1, ← resident]
  obtain ⟨shared, owned, -⟩ := hs₁.owned.frame_of ref page' old found₁ resident₁
  refine (refCount_ends owned).bind fun _ _ _ ⟨hn, hm⟩ => ?_
  subst hn hm
  by_cases hone : shared.owners.length = 1
  · rw [if_pos hone]
    refine (setPage_safe _ _).next fun _ m₂ h₂ => ?_
    refine (emit_safe _).next fun _ m₃ h₃ => ?_
    have hframes : m₃.core.frames = m₁.core.frames := by
      rw [emit_core h₃, setPage_core h₂]
      rfl
    exact (physPage_ends (hframes ▸ owned)).bind fun _ _ _ _ => (remap_safe _ _ _).stops
  · rw [if_neg hone]
    refine (had page' m₁ shared h₁ owned hone).bind fun new m₂ h₂ _ => ?_
    obtain ⟨hsteps, ⟨target, free⟩, hspares⟩ := allocateFrame_core hs₁ h₂
    have owned₂ := hspares.frame old shared owned hone
    have hne : new ≠ old := fun he => by
      rw [he, owned₂] at free
      cases free
      exact nomatch hs₁.owner found₁ resident₁ owned
    refine (physPage_ends owned₂).bind fun _ _ _ ⟨_, hm⟩ => ?_
    subst hm
    refine (physPage_ends free).bind fun _ _ _ ⟨htarget, hm⟩ => ?_
    subst htarget hm
    refine (readPhys_safe _).next fun _ _ h₃ => ?_
    obtain ⟨-, rfl⟩ := readPhys_core h₃
    refine (writePhys_safe _ _).next fun _ m₃ h₄ => ?_
    have hframes₃ : m₃.core.frames = m₂.core.frames := by
      rw [writePhys_core h₄]
      rfl
    refine (unlink_stops (hframes₃ ▸ owned₂)).bind fun _ m₄ h₅ _ => ?_
    obtain ⟨frame, hframe, hm₄⟩ := unlink_core h₅
    have hfree₄ : m₄.core.frames.find? new = some ⟨target, []⟩ := by
      rw [hm₄, disown_find?_of_ne hne, hframes₃]
      exact free
    refine (link_stops hfree₄).bind fun _ m₅ h₆ _ => ?_
    obtain ⟨frame', hframe', hm₅⟩ := link_core h₆
    refine (setPage_safe _ _).next fun _ m₆ h₇ => ?_
    refine (emit_safe _).next fun _ m₇ h₈ => ?_
    refine (remap_safe _ _ _).next fun granted m₈ h₉ => ?_
    cases granted with
    | true => exact (Safe.pure _).stops
    | false =>
        refine (clearMapping_safe _).next fun _ m₉ h₁₀ => ?_
        refine (setPage_safe _ _).next fun _ m₁₀ h₁₁ => ?_
        have hframes₁₀ : m₁₀.core.frames = m₅.core.frames := by
          rw [setPage_core h₁₁, clearMapping_core h₁₀, (remap_refused h₉).1, emit_core h₈,
            setPage_core h₇]
          rfl
        have hlinked : m₁₀.core.frames.find? new = some ⟨target, [] ++ [ref]⟩ := by
          rw [hframes₁₀, hm₅]
          rw [hfree₄] at hframe'
          cases hframe'
          exact FrameTable.find?_update_self
        exact (unlink_stops hlinked).bind fun _ _ _ _ => (Safe.pure _).stops

theorem breakSharing_stops {old : FrameId} (hs : m.core.Sound) (ha : m.core.Accounted n)
    (found : m.core.pages.find? ref = some page) (resident : page.frame = some old) :
    Stops Exhausted (breakSharing ref page old) m :=
  breakSharing_ends (fun _ _ => .inr) (fun page' m₁ _ h₁ _ _ => by
    obtain ⟨hstamp, -⟩ := touch_step found h₁
    exact allocateFrame_stops (hstamp.sound hs) (hstamp.accounted hs ha)) hs found resident

end DemandPaging
