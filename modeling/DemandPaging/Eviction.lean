import DemandPaging.Residency

/-!
Frames are taken from the pool or, when it is empty, from the page that was not used for the
longest time among those that can be saved.
-/

namespace DemandPaging

def frame (id : FrameId) : KernelM Frame := do
  match (← get).frames.find? id with
  | some frame => pure frame
  | none => throw .invalidFrame

def physPage (id : FrameId) : KernelM PhysPage := do
  return (← frame id).page

def refCount (id : FrameId) : KernelM Nat := do
  return (← frame id).owners.length

def setFrame (id : FrameId) (frame : Frame) : KernelM Unit :=
  modify fun m => { m with frames := m.frames.update id frame }

def link (id : FrameId) (ref : PageRef) : KernelM Unit := do
  let frame ← frame id
  setFrame id { frame with owners := frame.owners ++ [ref] }

def unlink (id : FrameId) (ref : PageRef) : KernelM Unit := do
  let frame ← frame id
  let owners := frame.owners.filter (· ≠ ref)
  if owners.isEmpty then
    modify fun m => { m with
      frames := m.frames.remove id, memory := m.memory.release frame.page }
    emit (.frameReleased id)
  else
    setFrame id { frame with owners }

structure Victim where
  id : FrameId
  phys : PhysPage
  ref : PageRef
  page : Page

namespace Victim

/-- Goes before another victim: it was used earlier or, at the same time, has the lower number. -/
def before (a b : Victim) : Bool :=
  a.page.lastAccess < b.page.lastAccess ||
    (a.page.lastAccess == b.page.lastAccess && a.id.index ≤ b.id.index)

def insertByAge (v : Victim) : List Victim → List Victim
  | [] => [v]
  | w :: rest => if v.before w then v :: w :: rest else w :: insertByAge v rest

def sortByAge : List Victim → List Victim
  | [] => []
  | v :: rest => insertByAge v (sortByAge rest)

theorem insertByAge_perm (v : Victim) (vs : List Victim) : (insertByAge v vs).Perm (v :: vs) := by
  induction vs with
  | nil => exact List.Perm.refl _
  | cons w rest ih =>
      simp only [insertByAge]
      split
      · exact List.Perm.refl _
      · exact (List.Perm.cons w ih).trans (List.Perm.swap v w rest)

theorem sortByAge_perm (vs : List Victim) : (sortByAge vs).Perm vs := by
  induction vs with
  | nil => exact List.Perm.refl _
  | cons v rest ih => exact (insertByAge_perm v _).trans (List.Perm.cons v ih)

theorem before_total (a b : Victim) : a.before b ∨ b.before a := by
  simp only [before, Bool.or_eq_true, decide_eq_true_eq, Bool.and_eq_true, beq_iff_eq]
  omega

theorem before_trans {a b c : Victim} (hab : a.before b) (hbc : b.before c) : a.before c := by
  simp only [before, Bool.or_eq_true, decide_eq_true_eq, Bool.and_eq_true, beq_iff_eq] at *
  omega

theorem insertByAge_pairwise {v : Victim} {vs : List Victim}
    (h : vs.Pairwise fun a b => a.before b) : (insertByAge v vs).Pairwise fun a b => a.before b := by
  induction vs with
  | nil => exact List.pairwise_singleton _ _
  | cons w rest ih =>
      simp only [insertByAge]
      rw [List.pairwise_cons] at h
      split
      · next hv =>
          refine List.pairwise_cons.2 ⟨fun x hx => ?_, List.pairwise_cons.2 h⟩
          rcases List.mem_cons.1 hx with rfl | hx
          · exact hv
          · exact before_trans hv (h.1 x hx)
      · next hv =>
          have hw : w.before v := (before_total v w).resolve_left hv
          refine List.pairwise_cons.2 ⟨fun x hx => ?_, ih h.2⟩
          rcases List.mem_cons.1 ((insertByAge_perm v rest).mem_iff.1 hx) with rfl | hx
          · exact hw
          · exact h.1 x hx

theorem sortByAge_pairwise (vs : List Victim) :
    (sortByAge vs).Pairwise fun a b => a.before b := by
  induction vs with
  | nil => exact List.Pairwise.nil
  | cons v rest ih => exact insertByAge_pairwise ih

end Victim

/-- A frame can be taken if it has one owner, still there and not locked by anybody else. -/
def Machine.victim? (m : Machine) (id : FrameId) (frame : Frame) : Option Victim :=
  match frame.owners with
  | [ref] =>
      if ref ∈ m.held then none
      else (m.pages.find? ref).map fun page => ⟨id, frame.page, ref, page⟩
  | _ => none

def Machine.victims (m : Machine) : List Victim :=
  Victim.sortByAge (m.frames.entries.rows.filterMap fun (id, frame) => m.victim? id frame)

/-- Takes the frame of a victim, if its contents can be saved. The frame is left clear. -/
def evictVictim (v : Victim) : KernelM Bool := do
  let entry := v.page.entryRef v.ref
  emit (.swapOut v.ref.va v.phys)
  match ← v.page.kind.save v.phys entry with
  | none =>
      emit (.victimFailed v.ref.va)
      pure false
  | some kind =>
      clearMapping entry
      setPage v.ref { v.page with kind, frame := none, cow := false }
      setFrame v.id ⟨v.phys, []⟩
      writePhys v.phys PageBytes.zero
      emit (.frameEvicted v.ref.va v.id)
      pure true

def evictFirst : List Victim → KernelM (Option FrameId)
  | [] => pure none
  | v :: rest => do
      if ← evictVictim v then pure (some v.id) else evictFirst rest

def evict : KernelM (Option FrameId) := do
  evictFirst (← get).victims

/-- A clear frame without an owner. The machine stops if there is none to be had. -/
def allocateFrame : KernelM FrameId := do
  let m ← get
  match m.memory.acquire? with
  | some (phys, memory) =>
      let (id, frames) := m.frames.add ⟨phys, []⟩
      set { m with memory, frames }
      emit (.frameAllocated id phys)
      pure id
  | none =>
      match ← evict with
      | some id => pure id
      | none =>
          let stats := (← get).stats
          emit (.outOfMemory stats.residentFrames stats.swapUsed stats.swapTotal)
          throw .noVictim

end DemandPaging
