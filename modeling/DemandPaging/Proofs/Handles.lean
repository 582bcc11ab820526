import DemandPaging.Operation
import DemandPaging.Proofs.Results
import Mathlib.Logic.Function.Basic

/-!
Which parts of the kernel leave the files as they are, which neither open nor close them, whatever
else they do with them, and which report no copy of a page.
-/

namespace DemandPaging

variable {α β γ : Type} {view : Machine → γ} {x : KernelM α}

def Machine.handles (m : Machine) (id : FileId) : Int := (m.file id).handles

def Event.copied? : Event → Option VirtAddr
  | copied va _ _ => some va
  | _ => none

def Machine.copies (m : Machine) : List VirtAddr := m.console.filterMap Event.copied?

/-- What is seen of the machine in some way stays as it is. -/
def Keeps (view : Machine → γ) (x : KernelM α) : Prop := ∀ ⦃m a m'⦄, x m = .ok a m' → view m' = view m

abbrev KeepsHandles (x : KernelM α) : Prop := Keeps Machine.handles x

theorem Machine.handles_congr {m m' : Machine} (same : m'.files = m.files) : m'.handles = m.handles := by
  funext id
  simp only [handles, file, same]

namespace Keeps

theorem pure (a : α) : Keeps view (Pure.pure a) := by
  intro m _ m' h
  rw [(pure_ok.1 h).2]

theorem bind {f : α → KernelM β} (hx : Keeps view x) (hf : ∀ a, Keeps view (f a)) :
    Keeps view (x >>= f) := by
  intro m b m' h
  obtain ⟨a, m₁, h₁, h⟩ := bind_ok.1 h
  exact (hf a h).trans (hx h₁)

theorem get : Keeps view get := by
  intro m _ m' h
  rw [(get_ok.1 h).2]

theorem get_bind {f : Machine → KernelM β} (hf : ∀ ⦃m b m'⦄, f m m = .ok b m' → view m' = view m) :
    Keeps view (MonadState.get >>= f) := by
  intro m b m' h
  replace h := bind_get_ok.1 h
  exact hf h

theorem modify {f : Machine → Machine} (hf : ∀ m, view (f m) = view m) : Keeps view (modify f) := by
  intro m _ m' h
  rw [← modify_ok.1 h, hf]

theorem throw (e : Panic) : Keeps view (MonadExcept.throw e : KernelM α) :=
  fun _ _ _ h => (throw_ok.1 h).elim

theorem ofExcept (x : Except Panic α) : Keeps view (ofExcept x) := by
  intro m _ m' h
  rw [(ofExcept_ok.1 h).2]

theorem ite {p : Prop} [Decidable p] {y : KernelM α} (hx : Keeps view x) (hy : Keeps view y) :
    Keeps view (if p then x else y) := by
  split
  · exact hx
  · exact hy

theorem handles (h : Keeps Machine.files x) : KeepsHandles x := fun _ _ _ hrun =>
  Machine.handles_congr (h hrun)

end Keeps

/-- What is seen of the machine has nothing to do with memory and pages, nor with the entries of page
tables, nor with any reports but those of copies. -/
class Apart (view : Machine → γ) : Prop where
  memory (m : Machine) (memory : Memory) : view { m with memory } = view m
  frames (m : Machine) (frames : FrameTable) : view { m with frames } = view m
  swap (m : Machine) (swap : SwapArea) : view { m with swap } = view m
  pages (m : Machine) (pages : Table PageRef Page) : view { m with pages } = view m
  mappings (m : Machine) (mappings : Table PageRef Mapping) : view { m with mappings } = view m
  clock (m : Machine) (clock : Nat) : view { m with clock } = view m
  report (m : Machine) (event : Event) (other : event.copied? = none) :
    view { m with console := event :: m.console } = view m

/-- Of the page tables nothing is seen at all. -/
class Aside (view : Machine → γ) : Prop extends Apart view where
  installs (m : Machine) (installs : Table SpaceId (Replies Bool)) :
    view { m with installs } = view m

/-- Of the files nothing is seen but their handles. -/
class Remote (view : Machine → γ) : Prop extends Aside view where
  files {m : Machine} {files : Table FileId File}
    (handles : Machine.handles { m with files } = m.handles) : view { m with files } = view m

instance : Apart Machine.installs := by
  constructor <;> exact fun _ _ => by first | rfl | exact fun _ => rfl

instance : Aside Machine.files where
  toApart := by constructor <;> exact fun _ _ => by first | rfl | exact fun _ => rfl
  installs _ _ := rfl

instance : Remote Machine.handles where
  memory _ _ := rfl
  frames _ _ := rfl
  swap _ _ := rfl
  pages _ _ := rfl
  mappings _ _ := rfl
  installs _ _ := rfl
  clock _ _ := rfl
  report _ _ _ := rfl
  files := id

instance : Remote Machine.programs where
  memory _ _ := rfl
  frames _ _ := rfl
  swap _ _ := rfl
  pages _ _ := rfl
  mappings _ _ := rfl
  installs _ _ := rfl
  clock _ _ := rfl
  report _ _ _ := rfl
  files _ := rfl

instance : Remote Machine.copies where
  memory _ _ := rfl
  frames _ _ := rfl
  swap _ _ := rfl
  pages _ _ := rfl
  mappings _ _ := rfl
  installs _ _ := rfl
  clock _ _ := rfl
  report _ _ other := List.filterMap_cons_none other
  files _ := rfl

open Keeps

theorem emit_files (event : Event) : Keeps Machine.files (emit event) := .modify fun _ => rfl

theorem page?_keeps (ref : PageRef) : Keeps view (page? ref) := Keeps.get.bind fun _ => .pure _

theorem readPhys_keeps (phys : PhysPage) : Keeps view (readPhys phys) := Keeps.get.bind fun _ => .pure _

theorem isDirty_keeps (entry : PageRef) : Keeps view (isDirty entry) :=
  Keeps.get.bind fun m => by
    split
    · exact .pure _
    · exact .pure _

theorem frame_keeps (id : FrameId) : Keeps view (frame id) :=
  Keeps.get.bind fun m => by
    split
    · exact .pure _
    · exact .throw _

theorem physPage_keeps (id : FrameId) : Keeps view (physPage id) :=
  (frame_keeps id).bind fun _ => .pure _

theorem refCount_keeps (id : FrameId) : Keeps view (refCount id) :=
  (frame_keeps id).bind fun _ => .pure _

theorem checkedAdd_keeps (a b : Nat) : Keeps view (checkedAdd a b) := .ite (.pure _) (.throw _)

theorem readSlot_keeps (slot : SwapSlot) (page : PageBytes) : Keeps view (readSlot slot page) :=
  Keeps.get.bind fun _ => .ofExcept _

section Apart

variable [Apart view]

theorem emit_keeps (event : Event) (other : event.copied? = none) : Keeps view (emit event) :=
  .modify fun m => Apart.report m event other

theorem setPage_keeps (ref : PageRef) (page : Page) : Keeps view (setPage ref page) :=
  .modify fun m => Apart.pages m _

theorem dropPage_keeps (ref : PageRef) : Keeps view (dropPage ref) := .modify fun m => Apart.pages m _

theorem writePhys_keeps (phys : PhysPage) (bytes : PageBytes) : Keeps view (writePhys phys bytes) :=
  .modify fun m => Apart.memory m _

theorem clearMapping_keeps (entry : PageRef) : Keeps view (clearMapping entry) :=
  .modify fun m => Apart.mappings m _

theorem setDirty_keeps (entry : PageRef) (dirty : Bool) : Keeps view (setDirty entry dirty) :=
  .modify fun m => Apart.mappings m _

theorem setFrame_keeps (id : FrameId) (frame : Frame) : Keeps view (setFrame id frame) :=
  .modify fun m => Apart.frames m _

theorem link_keeps (id : FrameId) (ref : PageRef) : Keeps view (link id ref) :=
  (frame_keeps id).bind fun _ => setFrame_keeps _ _

theorem unlink_keeps (id : FrameId) (ref : PageRef) : Keeps view (unlink id ref) :=
  (frame_keeps id).bind fun _ => .ite
    (bind (.modify fun m => (Apart.memory { m with frames := _ } _).trans (Apart.frames m _)) fun _ =>
      emit_keeps _ rfl) (setFrame_keeps _ _)

theorem tick_keeps : Keeps view tick :=
  Keeps.get.bind fun _ => (checkedAdd_keeps _ _).bind fun _ =>
    bind (.modify fun m => Apart.clock m _) fun _ => .pure _

theorem touch_keeps (ref : PageRef) (page : Page) : Keeps view (touch ref page) :=
  tick_keeps.bind fun _ => (setPage_keeps _ _).bind fun _ => .pure _

theorem setSwap_view {m m' : Machine} {swap : SwapArea} {u : PUnit}
    (h : (set { m with swap } : KernelM PUnit) m = .ok u m') : view m' = view m := by
  rw [← set_ok.1 h]
  exact Apart.swap m _

theorem allocSlot_keeps : Keeps view allocSlot :=
  .get_bind fun m got m' h => by
    cases hfree : m.swap.allocSlot? with
    | none =>
        simp only [hfree] at h
        exact Keeps.pure _ h
    | some free =>
        simp only [hfree] at h
        obtain ⟨_, m₁, h₁, h⟩ := bind_ok.1 h
        exact ((emit_keeps _ rfl).bind (fun _ => .pure _) h).trans (setSwap_view h₁)

theorem freeSlot_keeps (slot : SwapSlot) : Keeps view (freeSlot slot) :=
  .get_bind fun m u m' h => by
    obtain ⟨swap, m₁, h₁, h⟩ := bind_ok.1 h
    obtain ⟨-, rfl⟩ := ofExcept_ok.1 h₁
    obtain ⟨_, m₂, h₂, h⟩ := bind_ok.1 h
    exact (emit_keeps _ rfl h).trans (setSwap_view h₂)

theorem writeSlot_keeps (slot : SwapSlot) (page : PageBytes) : Keeps view (writeSlot slot page) :=
  .get_bind fun m u m' h => by
    obtain ⟨swap, m₁, h₁, h⟩ := bind_ok.1 h
    obtain ⟨-, rfl⟩ := ofExcept_ok.1 h₁
    exact setSwap_view h

end Apart

section Aside

variable [Aside view]

theorem askInstall_keeps (s : SpaceId) : Keeps view (askInstall s) := by
  intro m granted m' h
  have h' := modifyGet_ok.1 h
  simp only [Prod.mk.injEq] at h'
  rw [← h'.2]
  exact Aside.installs m _

theorem install_keeps (entry : PageRef) (phys : PhysPage) (writable : Bool) :
    Keeps view (install entry phys writable) :=
  (askInstall_keeps _).bind fun _ => .ite
    (bind (.modify fun m => Apart.mappings m _) fun _ => .pure _) (.pure _)

theorem remap_keeps (entry : PageRef) (phys : PhysPage) (writable : Bool) :
    Keeps view (remap entry phys writable) :=
  (isDirty_keeps _).bind fun _ => (install_keeps _ _ _).bind fun _ =>
    .ite ((setDirty_keeps _ _).bind fun _ => .pure _) (.pure _)

end Aside

theorem useFile_file {id : FileId} {f : File → α × File} {m m' : Machine} {a : α}
    (h : useFile id f m = .ok a m') : m'.file = Function.update m.file id (f (m.file id)).2 := by
  have h' := modifyGet_ok.1 h
  simp only [Prod.mk.injEq] at h'
  obtain ⟨-, rfl⟩ := h'
  funext i
  by_cases hi : i = id
  · subst hi
    simp only [Machine.file, Table.find?_insert, if_pos, Option.getD_some, Function.update_self]
  · simp only [Machine.file, Table.find?_insert, if_neg (Ne.symm hi), Function.update_of_ne hi]

theorem File.handles_writeAt (file : File) (bytes : Array UInt8) (offset : Nat) :
    (file.writeAt bytes offset).2.handles = file.handles := by
  simp only [File.writeAt]
  split <;> rfl

section Remote

variable [Remote view]

theorem useFile_keeps {id : FileId} {f : File → α × File}
    (hf : ∀ file, (f file).2.handles = file.handles) : Keeps view (useFile id f) := by
  intro m a m' h
  have hfile := useFile_file h
  have h' := modifyGet_ok.1 h
  simp only [Prod.mk.injEq] at h'
  obtain ⟨-, rfl⟩ := h'
  refine Remote.files (funext fun i => ?_)
  simp only [Machine.handles, hfile, Function.update_apply]
  split
  · next heq => rw [hf, heq]
  · rfl

theorem load_keeps (backing : FileBacking) : Keeps view backing.load :=
  (useFile_keeps fun _ => rfl).bind fun _ => .pure _

theorem writeBack_keeps (backing : FileBacking) (bytes : PageBytes) :
    Keeps view (backing.writeBack bytes) :=
  (useFile_keeps fun file => file.handles_writeAt _ _).bind fun _ =>
    .ite (.pure _) ((emit_keeps _ rfl).bind fun _ => .pure _)

theorem save_keeps (kind : PageKind) (phys : PhysPage) (entry : PageRef) :
    Keeps view (kind.save phys entry) := by
  unfold PageKind.save
  split
  · exact .pure _
  · exact .throw _
  · refine allocSlot_keeps.bind fun got => ?_
    split
    · exact (emit_keeps _ rfl).bind fun _ => .pure _
    · exact (readPhys_keeps _).bind fun _ => (writeSlot_keeps _ _).bind fun _ => .pure _
  · exact (isDirty_keeps _).bind fun _ => .ite ((readPhys_keeps _).bind fun _ =>
      (writeBack_keeps _ _).bind fun _ => .ite ((setDirty_keeps _ _).bind fun _ => .pure _) (.pure _))
        (.pure _)

theorem dispose_keeps (kind : PageKind) (phys : Option PhysPage) (writable : Bool)
    (entry : PageRef) : Keeps view (kind.dispose phys writable entry) := by
  unfold PageKind.dispose
  split
  · exact .pure _
  · exact .pure _
  · exact freeSlot_keeps _
  · split
    · exact .pure _
    · exact (isDirty_keeps _).bind fun _ => .ite ((readPhys_keeps _).bind fun _ =>
        (writeBack_keeps _ _).bind fun _ => .ite (setDirty_keeps _ _) (.pure _)) (.pure _)

theorem evictVictim_keeps (v : Victim) : Keeps view (evictVictim v) := by
  refine (emit_keeps _ rfl).bind fun _ => (save_keeps _ _ _).bind fun got => ?_
  split
  · exact (emit_keeps _ rfl).bind fun _ => .pure _
  · exact (clearMapping_keeps _).bind fun _ => (setPage_keeps _ _).bind fun _ =>
      (setFrame_keeps _ _).bind fun _ => (writePhys_keeps _ _).bind fun _ =>
        (emit_keeps _ rfl).bind fun _ => .pure _

theorem evictFirst_keeps (vs : List Victim) : Keeps view (evictFirst vs) := by
  induction vs with
  | nil => exact .pure _
  | cons v rest ih => exact (evictVictim_keeps v).bind fun _ => .ite (.pure _) ih

theorem allocateFrame_keeps : Keeps view allocateFrame :=
  .get_bind fun m id m' h => by
    cases htaken : m.memory.acquire? with
    | some taken =>
        simp only [htaken] at h
        obtain ⟨_, m₁, h₁, h⟩ := bind_ok.1 h
        refine ((emit_keeps _ rfl).bind (fun _ => .pure _) h).trans ?_
        rw [← set_ok.1 h₁]
        exact (Apart.memory { m with frames := _ } _).trans (Apart.frames m _)
    | none =>
        simp only [htaken] at h
        obtain ⟨got, m₁, h₁, h⟩ := bind_ok.1 h
        have hevict : view m₁ = view m := Keeps.get.bind (fun m => evictFirst_keeps m.victims) h₁
        cases got with
        | some new => exact (Keeps.pure _ h).trans hevict
        | none =>
            obtain ⟨_, _, -, h⟩ := bind_ok.1 h
            obtain ⟨_, _, -, h⟩ := bind_ok.1 h
            exact (throw_ok.1 h).elim

theorem vacate_keeps (ref : PageRef) (page : Page) : Keeps view (vacate ref page) := by
  unfold vacate
  split
  · exact dispose_keeps _ _ _ _
  · exact (physPage_keeps _).bind fun _ => (dispose_keeps _ _ _ _).bind fun _ =>
      (clearMapping_keeps _).bind fun _ => unlink_keeps _ _

end Remote

theorem breakSharing_handles (ref : PageRef) (page : Page) (old : FrameId) :
    KeepsHandles (breakSharing ref page old) :=
  (touch_keeps _ _).bind fun _ => (refCount_keeps _).bind fun _ => .ite
    ((setPage_keeps _ _).bind fun _ => (emit_keeps _ rfl).bind fun _ => (physPage_keeps _).bind fun _ =>
      remap_keeps _ _ _)
    (allocateFrame_keeps.bind fun _ => (physPage_keeps _).bind fun _ =>
      (physPage_keeps _).bind fun _ => (readPhys_keeps _).bind fun _ =>
        (writePhys_keeps _ _).bind fun _ => (unlink_keeps _ _).bind fun _ =>
          (link_keeps _ _).bind fun _ => (setPage_keeps _ _).bind fun _ =>
            (emit_files _).handles.bind fun _ => (remap_keeps _ _ _).bind fun _ => .ite (.pure _)
              ((clearMapping_keeps _).bind fun _ => (setPage_keeps _ _).bind fun _ =>
                (unlink_keeps _ _).bind fun _ => .pure _))

end DemandPaging
