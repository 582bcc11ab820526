import DemandPaging.Proofs.Stock
import Mathlib.Algebra.Group.Pi.Basic
import Mathlib.Algebra.Group.Int.Defs

/-!
The open handles of files. A page holds a handle for each range of a file that it stands for, and
what opens or closes handles does so along with the pages.
-/

namespace DemandPaging

open DemandPaging.Core

abbrev HandleCount : Type := FileId → Int

def handlesOf (id : FileId) (k : Int) : HandleCount := fun i => if id = i then k else 0

def FileBacking.handles (backing : FileBacking) : HandleCount := handlesOf backing.file 1

def Initializer.handles : Initializer → HandleCount
  | segment backing => backing.handles
  | _ => 0

def PageTarget.handles : PageTarget → HandleCount
  | file backing => backing.handles
  | anon => 0

def PageKind.handles : PageKind → HandleCount
  | uninit target init => target.handles + init.elim 0 Initializer.handles
  | anon _ => 0
  | file backing => backing.handles

def Core.lent (c : Core) : HandleCount := c.pages.total fun page => page.kind.handles

variable {m m' : Machine} {ref : PageRef} {page page' : Page} {u : Unit} {id : FileId}

namespace Core

variable {c c' c₁ : Core} {deeds : List Deed}

theorem lent_set (new : Option Page) (changed : c₁.pages = c.pages.set ref new) :
    c₁.lent + (c.pages.find? ref).elim 0 (fun page => page.kind.handles) =
      c.lent + new.elim 0 fun page => page.kind.handles := by
  unfold lent
  rw [changed]
  exact c.pages.total_set ref new _

theorem lent_setPage (found : c.pages.find? ref = some page)
    (same : page'.kind.handles = page.kind.handles) : (c.setPage ref page').lent = c.lent := by
  have h := @lent_set ref c (c.setPage ref page') (some page') rfl
  rw [found, Option.elim_some, Option.elim_some, same] at h
  exact add_right_cancel h

theorem lent_setPage_of (same : c₁.pages = c.pages) (found : c.pages.find? ref = some page)
    (kept : page'.kind.handles = page.kind.handles) : (c₁.setPage ref page').lent = c.lent :=
  (congrArg (fun pages : Table PageRef Page => (pages.insert ref page').total _) same).trans
    (lent_setPage (c := c) found kept)

end Core

def Deed.Quiet : Deed → Prop
  | read _ _ _ | write _ _ _ | lose _ | chart _ => True
  | _ => False

theorem Core.Fills.handles {c c₁ : Core} {deeds : List Deed} {bytes bytes' : PageBytes}
    {kind kind' : PageKind} (h : c.Fills ref bytes kind kind' bytes' c₁ deeds) :
    kind'.handles = kind.handles ∨ ∃ target init, kind = .uninit target (some init) ∧
      kind' = target.kind ∧ deeds = [.make ref (some init) bytes'] := by
  cases h with
  | made => exact .inr ⟨_, _, rfl, rfl, rfl⟩
  | newAnon => exact .inl (add_zero _).symm
  | newFile => exact .inl (add_zero _).symm
  | _ => exact .inl rfl

theorem Core.Saves.handles {c c₁ : Core} {bytes : PageBytes} {entry : PageRef} {kind kind' : PageKind}
    (h : c.Saves bytes entry kind kind' c₁) : kind'.handles = kind.handles := by
  cases h <;> rfl

theorem Core.Step.lent {c c' : Core} {deeds : List Deed} (h : Step c deeds c')
    (quiet : ∀ d ∈ deeds, d.Quiet) : c'.lent = c.lent := by
  cases h with
  | touch found => exact lent_setPage found rfl
  | evict found owned saved =>
      have hsame := saved.handles
      obtain ⟨swap, files, rfl⟩ := saved.core_eq
      exact lent_setPage (c := c) found hsame
  | fill found away free filled =>
      have hkind := filled.handles.resolve_right fun ⟨_, _, _, _, hdeeds⟩ => by
        rw [hdeeds] at quiet
        exact quiet _ List.mem_cons_self
      obtain ⟨swap, programs, rfl, -⟩ := filled.core_eq
      exact lent_setPage (c := c) found hkind
  | refuse found => exact lent_setPage (c := c) found rfl
  | copy found => exact lent_setPage_of (diverge_pages c _ _ _ _) found rfl
  | lose found => exact lent_setPage_of (diverge_pages c _ _ _ _) found rfl
  | own found => exact lent_setPage found rfl
  | add => exact (quiet _ List.mem_cons_self).elim
  | fail => exact (quiet _ List.mem_cons_self).elim
  | share => exact (quiet _ List.mem_cons_self).elim
  | shareHalf => exact (quiet _ List.mem_cons_self).elim
  | dropAway => exact (quiet _ List.mem_cons_self).elim
  | drop => exact (quiet _ List.mem_cons_self).elim
  | _ => rfl

theorem Core.Steps.lent {c c' : Core} {deeds : List Deed} (h : Steps c deeds c')
    (quiet : ∀ d ∈ deeds, d.Quiet) : c'.lent = c.lent := by
  induction h with
  | refl => rfl
  | tail _ step ih =>
      rw [step.lent fun d hd => quiet d (List.mem_append_right _ hd),
        ih fun d hd => quiet d (List.mem_append_left _ hd)]

theorem useFile_changes {α : Type} {f : File → α × File} {a : α} {k : Int}
    (h : useFile id f m = .ok a m')
    (hf : (f (m.file id)).2.handles = (m.file id).handles + k) :
    m'.handles = m.handles + handlesOf id k := by
  funext i
  simp only [Machine.handles, useFile_file h, Function.update_apply, Pi.add_apply, handlesOf]
  by_cases hi : i = id
  · rw [if_pos hi, if_pos hi.symm, hi, hf]
  · rw [if_neg hi, if_neg (Ne.symm hi), add_zero]

theorem openFile_handles (h : openFile id m = .ok u m') :
    m'.handles = m.handles + handlesOf id 1 :=
  useFile_changes h rfl

theorem handlesOf_neg (id : FileId) (k : Int) : handlesOf id (-k) + handlesOf id k = 0 := by
  funext i
  simp only [handlesOf, Pi.add_apply, Pi.zero_apply]
  split <;> omega

theorem closeFile_handles (h : closeFile id m = .ok u m') :
    m'.handles + handlesOf id 1 = m.handles := by
  rw [useFile_changes (k := -1) h rfl, add_assoc, handlesOf_neg, add_zero]

theorem reopen_handles {granted : Bool} (h : useFile id File.reopen m = .ok granted m') :
    m'.handles = m.handles + if granted then handlesOf id 1 else 0 := by
  have hgranted : (m.file id).reopen.1 = granted := by
    have h' := modifyGet_ok.1 h
    exact (Prod.mk.inj h').1
  cases granted with
  | true =>
      refine useFile_changes h ?_
      simp only [File.reopen] at hgranted ⊢
      rw [if_pos hgranted]
      rfl
  | false =>
      have hsame := useFile_changes (k := 0) h (by
        simp only [File.reopen] at hgranted ⊢
        rw [hgranted]
        exact (add_zero _).symm)
      rw [hsame]
      funext i
      simp only [handlesOf, Pi.add_apply, ite_self, Bool.false_eq_true, if_false, Pi.zero_apply]

/-- A computation that gives a copy with handles of its own, or nothing. -/
def Lends {α : Type} (handles : α → HandleCount) (x : KernelM (Option α)) : Prop :=
  ∀ ⦃m copy m'⦄, x m = .ok copy m' → m'.handles = m.handles + copy.elim 0 handles

/-- A computation that gives so many handles back. -/
def Returns (handles : HandleCount) (x : KernelM Unit) : Prop :=
  ∀ ⦃m u m'⦄, x m = .ok u m' → m'.handles + handles = m.handles

theorem Lends.map {α β : Type} {handles : α → HandleCount} {handles' : β → HandleCount} {f : α → β}
    {x : KernelM (Option α)} (hx : Lends handles x) (hf : ∀ a, handles' (f a) = handles a) :
    Lends handles' (do return (← x).map f) := by
  intro m copy m' h
  obtain ⟨got, h₁, rfl⟩ := bind_pure_ok.1 h
  rw [hx h₁]
  cases got with
  | none => rfl
  | some a => exact congrArg _ (hf a).symm

theorem Lends.pure {α : Type} {handles : α → HandleCount} {a : Option α}
    (ha : a.elim 0 handles = 0) : Lends handles (Pure.pure a) := by
  intro m copy m' h
  obtain ⟨rfl, rfl⟩ := pure_ok.1 h
  rw [ha, add_zero]

theorem Returns.pure {u : Unit} : Returns 0 (Pure.pure u) := by
  intro m _ m' h
  obtain ⟨-, rfl⟩ := pure_ok.1 h
  exact add_zero _

theorem FileBacking.duplicate_lends (backing : FileBacking) :
    Lends FileBacking.handles backing.duplicate := by
  intro m copy m' h
  obtain ⟨granted, m₁, h₁, h⟩ := bind_ok.1 h
  have hreopen := reopen_handles h₁
  cases granted with
  | true =>
      obtain ⟨rfl, rfl⟩ := pure_ok.1 h
      exact hreopen
  | false =>
      obtain ⟨rfl, rfl⟩ := pure_ok.1 h
      exact hreopen

theorem FileBacking.close_returns (backing : FileBacking) : Returns backing.handles backing.close :=
  fun _ _ _ h => closeFile_handles h

theorem Initializer.duplicate_lends (init : Initializer) :
    Lends Initializer.handles init.duplicate := by
  cases init with
  | segment backing => exact backing.duplicate_lends.map fun _ => rfl
  | program id =>
      intro m copy m' h
      replace h := bind_get_ok.1 h
      cases hroutine : m.programs.find? id with
      | none =>
          simp only [hroutine] at h
          obtain ⟨rfl, rfl⟩ := pure_ok.1 h
          exact (add_zero _).symm
      | some routine =>
          simp only [hroutine] at h
          obtain ⟨_, h₂, rfl⟩ := bind_pure_ok.1 h
          obtain rfl := set_ok.1 h₂
          split <;> exact (add_zero _).symm
  | alwaysFail => exact .pure rfl

theorem Initializer.close_returns (init : Initializer) : Returns init.handles init.close := by
  cases init with
  | segment backing => exact backing.close_returns
  | program id => exact .pure
  | alwaysFail => exact .pure

theorem closeInitializer_returns (init : Option Initializer) :
    Returns (init.elim 0 Initializer.handles) (closeInitializer init) := by
  cases init with
  | none => exact .pure
  | some init => exact init.close_returns

theorem Initializer.run_handles {init : Initializer} {bytes : PageBytes} {r : PageBytes × Bool}
    (h : init.run bytes m = .ok r m') : m'.handles + init.handles = m.handles := by
  cases init with
  | segment backing =>
      obtain ⟨page, m₁, h₁, h⟩ := bind_ok.1 h
      obtain ⟨_, h₂, rfl⟩ := bind_pure_ok.1 h
      exact (backing.close_returns h₂).trans (load_keeps backing h₁)
  | program id =>
      replace h := bind_get_ok.1 h
      cases hroutine : m.programs.find? id with
      | none =>
          simp only [hroutine] at h
          obtain ⟨rfl, rfl⟩ := pure_ok.1 h
          exact add_zero _
      | some routine =>
          simp only [hroutine] at h
          obtain ⟨_, h₂, rfl⟩ := bind_pure_ok.1 h
          obtain rfl := set_ok.1 h₂
          exact add_zero _
  | alwaysFail =>
      obtain ⟨rfl, rfl⟩ := pure_ok.1 h
      exact add_zero _

theorem PageTarget.duplicate_lends (target : PageTarget) :
    Lends PageTarget.handles target.duplicate := by
  cases target with
  | anon => exact .pure rfl
  | file backing => exact backing.duplicate_lends.map fun _ => rfl

theorem PageTarget.close_returns (target : PageTarget) : Returns target.handles target.close := by
  cases target with
  | anon => exact .pure
  | file backing => exact backing.close_returns

theorem PageTarget.handles_kind (target : PageTarget) : target.kind.handles = target.handles := by
  cases target <;> rfl

namespace PageKind

theorem duplicate_lends (kind : PageKind) : Lends PageKind.handles kind.duplicate := by
  rcases kind with ⟨target, _ | init⟩ | slot | backing
  · exact target.duplicate_lends.map fun _ => add_zero _
  · intro m copy m' h
    obtain ⟨got, m₁, h₁, h⟩ := bind_ok.1 h
    have hinit := init.duplicate_lends h₁
    cases got with
    | none =>
        obtain ⟨rfl, rfl⟩ := pure_ok.1 h
        exact hinit
    | some copied =>
        obtain ⟨got, m₂, h₂, h⟩ := bind_ok.1 h
        have htarget := target.duplicate_lends h₂
        cases got with
        | none =>
            obtain ⟨_, h₃, rfl⟩ := bind_pure_ok.1 h
            have hclose := copied.close_returns h₃
            rw [htarget, hinit] at hclose
            exact (add_right_cancel ((hclose.trans (add_zero _)).trans (by rfl))).trans
              (add_zero _).symm
        | some target' =>
            obtain ⟨rfl, rfl⟩ := pure_ok.1 h
            rw [htarget, hinit]
            simp only [Option.elim_some, handles]
            abel
  · exact .pure rfl
  · exact backing.duplicate_lends.map fun _ => rfl

theorem close_returns (kind : PageKind) : Returns kind.handles kind.close := by
  cases kind with
  | uninit target init =>
      intro m u m' h
      obtain ⟨_, m₁, h₁, h⟩ := bind_ok.1 h
      rw [← target.close_returns h₁, ← closeInitializer_returns init h]
      simp only [handles]
      abel
  | anon slot => exact .pure
  | file backing => exact backing.close_returns

theorem fill_handles {kind kind' : PageKind} {phys : PhysPage} {filled : Bool}
    (h : kind.fill phys m = .ok (kind', filled) m') :
    m'.handles + kind.handles = m.handles + kind'.handles := by
  cases fill_filled h with
  | newAnon wrote =>
      rw [(writePhys_keeps _ _).handles wrote]
      rfl
  | newFile loaded wrote =>
      rw [(writePhys_keeps _ _).handles wrote, (load_keeps _ loaded : _ = m.handles)]
      exact congrArg (m.handles + ·) (add_zero _)
  | @made target init retry _ _ _ _ _ copied ran wrote closed =>
      have hrun := Initializer.run_handles ran
      have hclose := closeInitializer_returns retry closed
      rw [init.duplicate_lends copied, ← (writePhys_keeps _ _).handles wrote, ← hclose,
        add_right_comm] at hrun
      rw [target.handles_kind, ← add_right_cancel hrun]
      simp only [handles, Option.elim_some]
      abel
  | @failed target init retry _ _ _ _ copied ran wrote =>
      have hrun := Initializer.run_handles ran
      have hkept : (retry.getD .alwaysFail).handles = retry.elim 0 Initializer.handles := by
        cases retry <;> rfl
      rw [init.duplicate_lends copied, ← (writePhys_keeps _ _).handles wrote] at hrun
      simp only [handles, Option.elim_some, hkept]
      rw [add_left_comm, hrun]
      abel
  | zero wrote => rw [(writePhys_keeps _ _).handles wrote]
  | slot _ wrote freed =>
      rw [(freeSlot_keeps _).handles freed, (writePhys_keeps _ _).handles wrote]
      rfl
  | file loaded wrote =>
      rw [(writePhys_keeps _ _).handles wrote, (load_keeps _ loaded : _ = m.handles)]

end PageKind

theorem mapAndFill_handles {phys : PhysPage} {r : PageKind × Bool}
    (h : mapAndFill ref page phys m = .ok r m') :
    m'.handles + page.kind.handles = m.handles + r.1.handles := by
  rcases mapAndFill_parts h with ⟨m₁, m₂, granted, told, filled⟩ | ⟨rfl, refused⟩
  · rw [← (install_keeps _ _ _).handles granted, ← (emit_files _).handles told]
    exact PageKind.fill_handles filled
  · rw [(install_keeps _ _ _).handles refused]

end DemandPaging
