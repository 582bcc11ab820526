import DemandPaging.Proofs.Looks
import DemandPaging.Proofs.Tidy

/-!
What pages owe to their files. A page that was written to is paid back to its file when it is given
up; what comes of the files then does not depend on the order in which pages are given up, as long
as no two of them compete for a file.
-/

namespace DemandPaging

open DemandPaging.Core
open Function (update update_self update_of_ne update_comm)

namespace File

variable {file : File} {data b₁ b₂ : Array UInt8} {o₁ o₂ : Nat}

theorem getD_overwrite (data bytes : Array UInt8) (offset i : Nat) :
    (overwrite data offset bytes)[i]?.getD 0 =
      if offset ≤ i ∧ i < offset + bytes.size then bytes[i - offset]?.getD 0
      else data[i]?.getD 0 := by
  simp only [overwrite, getElem?_putFrom, Array.size_append, Array.size_replicate,
    Array.length_toList, Array.getElem?_toList]
  by_cases hin : offset ≤ i ∧ i < offset + bytes.size
  · rw [if_pos hin, if_pos (by omega)]
  · rw [if_neg hin, if_neg (by omega), Array.getElem?_append]
    split
    · rfl
    · next hi =>
        rw [Array.getElem?_eq_none (Nat.le_of_not_lt hi), Array.getElem?_replicate]
        split <;> rfl

theorem overwrite_comm (apart : min (o₁ + b₁.size) (o₂ + b₂.size) ≤ max o₁ o₂) :
    overwrite (overwrite data o₁ b₁) o₂ b₂ = overwrite (overwrite data o₂ b₂) o₁ b₁ := by
  have hsize : (overwrite (overwrite data o₁ b₁) o₂ b₂).size =
      (overwrite (overwrite data o₂ b₂) o₁ b₁).size := by
    simp only [size_overwrite]
    omega
  -- both are as long as the longer range needs, so it is enough to compare the bytes, with zeros
  -- beyond the end
  refine Array.ext hsize fun i hi hi' => ?_
  have hbyte : (overwrite (overwrite data o₁ b₁) o₂ b₂)[i]?.getD 0 =
      (overwrite (overwrite data o₂ b₂) o₁ b₁)[i]?.getD 0 := by
    simp only [getD_overwrite]
    by_cases h₁ : o₁ ≤ i ∧ i < o₁ + b₁.size
    · rw [if_pos h₁, if_neg (by omega), if_pos h₁]
    · rw [if_neg h₁, if_neg h₁]
  rwa [Array.getElem?_eq_getElem hi, Array.getElem?_eq_getElem hi'] at hbyte

/-- How much of a write the file takes does not depend on the writes before it. -/
def Steady (file : File) : Prop := ∀ i j, file.writeCaps.reply i = file.writeCaps.reply j

def wrote (file : File) (offset : Nat) (bytes : Array UInt8) (moved : Nat) : File :=
  { file with
    writeCaps := file.writeCaps.next.2
    data := if moved = 0 then file.data else overwrite file.data offset (bytes.extract 0 moved) }

theorem writeAt_snd (file : File) (bytes : Array UInt8) (offset : Nat) :
    (file.writeAt bytes offset).2 =
      file.wrote offset bytes (capped file.writeCaps.next.1 (min bytes.size (file.room offset))) := by
  simp only [writeAt, wrote]
  split <;> rfl

theorem writeAt_uncounted (file : File) (bytes : Array UInt8) (offset : Nat) :
    { (file.writeAt bytes offset).2 with handles := 0 } =
      ({ file with handles := 0 }.writeAt bytes offset).2 := by
  rw [writeAt_snd, writeAt_snd]
  rfl

theorem wrote_comm (m₁ m₂ : Nat) (apart : min (o₁ + b₁.size) (o₂ + b₂.size) ≤ max o₁ o₂) :
    (file.wrote o₁ b₁ m₁).wrote o₂ b₂ m₂ = (file.wrote o₂ b₂ m₂).wrote o₁ b₁ m₁ := by
  have hcomm : overwrite (overwrite file.data o₁ (b₁.extract 0 m₁)) o₂ (b₂.extract 0 m₂) =
      overwrite (overwrite file.data o₂ (b₂.extract 0 m₂)) o₁ (b₁.extract 0 m₁) := by
    refine overwrite_comm ?_
    simp only [Array.size_extract]
    omega
  unfold wrote
  by_cases h₁ : m₁ = 0
  · simp only [if_pos h₁]
  · by_cases h₂ : m₂ = 0
    · simp only [if_pos h₂]
    · simp only [if_neg h₁, if_neg h₂, hcomm]

theorem writeAt_room (file : File) (bytes : Array UInt8) (offset : Nat) :
    (file.writeAt bytes offset).2.room = file.room := by
  funext o
  rw [writeAt_snd]
  have hmoved := capped_le file.writeCaps.next.1 (min bytes.size (file.room offset))
  generalize capped _ _ = moved at hmoved
  change file.growsTo.getD (file.wrote offset bytes moved).data.size - o =
    file.growsTo.getD file.data.size - o
  cases hgrows : file.growsTo with
  | some limit => rfl
  | none =>
      simp only [room, hgrows, Option.getD_none, length] at hmoved ⊢
      unfold wrote
      dsimp only
      split
      · rfl
      · simp only [size_overwrite, Array.size_extract]
        omega

theorem Steady.writeAt (h : file.Steady) (bytes : Array UInt8) (offset : Nat) :
    (file.writeAt bytes offset).2.Steady := by
  rw [writeAt_snd]
  exact h

theorem Steady.writeAt_comm (h : file.Steady)
    (apart : min (o₁ + b₁.size) (o₂ + b₂.size) ≤ max o₁ o₂) :
    ((file.writeAt b₁ o₁).2.writeAt b₂ o₂).2 = ((file.writeAt b₂ o₂).2.writeAt b₁ o₁).2 := by
  have hcap (o : Nat) (b : Array UInt8) :
      (file.writeAt b o).2.writeCaps.next.1 = file.writeCaps.next.1 := by
    rw [writeAt_snd]
    exact h _ _
  calc ((file.writeAt b₁ o₁).2.writeAt b₂ o₂).2
      = (file.writeAt b₁ o₁).2.wrote o₂ b₂
          (capped file.writeCaps.next.1 (min b₂.size (file.room o₂))) := by
        rw [writeAt_snd _ b₂, writeAt_room, hcap]
    _ = (file.writeAt b₂ o₂).2.wrote o₁ b₁
          (capped file.writeCaps.next.1 (min b₁.size (file.room o₁))) := by
        rw [writeAt_snd, writeAt_snd]
        exact wrote_comm _ _ apart
    _ = ((file.writeAt b₂ o₂).2.writeAt b₁ o₁).2 := by
        rw [writeAt_snd _ b₁, writeAt_room, hcap]

end File

def FileBacking.Apart (a b : FileBacking) : Prop :=
  a.file = b.file → min (a.offset + a.readBytes) (b.offset + b.readBytes) ≤ max a.offset b.offset

instance (a b : FileBacking) : Decidable (a.Apart b) :=
  inferInstanceAs (Decidable (a.file = b.file →
    min (a.offset + a.readBytes) (b.offset + b.readBytes) ≤ max a.offset b.offset))

/-- The bytes of a page that are to go to a range of a file. -/
structure Debt where
  backing : FileBacking
  bytes : PageBytes

def Debt.pay (files : FileId → File) (d : Debt) : FileId → File :=
  update files d.backing.file ((files d.backing.file).writeAt
    (PageBytes.slice d.bytes 0 d.backing.readBytes) d.backing.offset).2

def Look.debt? : Look → Option Debt
  | ⟨.file backing, true, some bytes, true⟩ => some ⟨backing, bytes⟩
  | _ => none

/-- What the pages are like, and the files apart from their handles. -/
structure Ledger where
  looks : Looks
  files : FileId → File

namespace Ledger

variable {l : Ledger} {ref ref' : PageRef} {refs refs' : List PageRef} {d d' : Debt}

def debt? (l : Ledger) (ref : PageRef) : Option Debt := (l.looks ref).bind Look.debt?

def settle (l : Ledger) (ref : PageRef) : Ledger where
  looks := update l.looks ref none
  files := (l.debt? ref).elim l.files (Debt.pay l.files)

/-- Pages that owe something to one file owe it to different places, and the order in which they pay
makes no difference to the file. -/
def Fair (l : Ledger) : Prop :=
  ∀ ref ref' d d', ref ≠ ref' → l.debt? ref = some d → l.debt? ref' = some d' →
    d.backing.Apart d'.backing ∧
      (d.backing.file = d'.backing.file → (l.files d.backing.file).Steady)

theorem debt?_settle_self (l : Ledger) (ref : PageRef) : (l.settle ref).debt? ref = none := by
  rw [debt?, show (l.settle ref).looks ref = none from update_self _ _ _]
  rfl

theorem debt?_settle (h : ref' ≠ ref) : (l.settle ref).debt? ref' = l.debt? ref' := by
  rw [debt?, show (l.settle ref).looks ref' = l.looks ref' from update_of_ne h _ _]
  rfl

theorem settle_steady {id : FileId} (h : (l.files id).Steady) :
    ((l.settle ref).files id).Steady := by
  unfold settle
  cases l.debt? ref with
  | none => exact h
  | some d =>
      simp only [Option.elim_some, Debt.pay, Function.update_apply]
      split
      · next heq => exact (heq ▸ h : (l.files d.backing.file).Steady).writeAt _ _
      · exact h

theorem Fair.settled (h : l.Fair) (ref : PageRef) : (l.settle ref).Fair := by
  intro r r' d d' hne hd hd'
  have still {x : PageRef} {e : Debt} (hx : (l.settle ref).debt? x = some e) :
      l.debt? x = some e := by
    by_cases hxr : x = ref
    · rw [hxr, debt?_settle_self] at hx
      exact nomatch hx
    · rwa [debt?_settle hxr] at hx
  obtain ⟨apart, steady⟩ := h r r' d d' hne (still hd) (still hd')
  exact ⟨apart, fun hfile => settle_steady (steady hfile)⟩

theorem pay_comm (files : FileId → File) (apart : d.backing.Apart d'.backing)
    (steady : d.backing.file = d'.backing.file → (files d.backing.file).Steady) :
    d'.pay (d.pay files) = d.pay (d'.pay files) := by
  unfold Debt.pay
  by_cases hfile : d.backing.file = d'.backing.file
  · rw [← hfile, update_self, update_self, Function.update_idem, Function.update_idem]
    refine congrArg (update files d.backing.file) ((steady hfile).writeAt_comm ?_)
    simp only [PageBytes.slice, Array.size_ofFn]
    exact apart hfile
  · rw [update_of_ne (Ne.symm hfile), update_of_ne hfile, update_comm (Ne.symm hfile)]

theorem Fair.settle_comm (h : l.Fair) (ref ref' : PageRef) :
    (l.settle ref).settle ref' = (l.settle ref').settle ref := by
  by_cases hne : ref = ref'
  · rw [hne]
  · have hlooks : update (update l.looks ref none) ref' none =
        update (update l.looks ref' none) ref none := update_comm hne _ _ _
    have hfiles : ((l.settle ref).settle ref').files = ((l.settle ref').settle ref).files := by
      change ((l.settle ref).debt? ref').elim (l.settle ref).files _ =
        ((l.settle ref').debt? ref).elim (l.settle ref').files _
      rw [debt?_settle (Ne.symm hne), debt?_settle hne]
      unfold settle
      cases hd : l.debt? ref with
      | none => rfl
      | some d =>
          cases hd' : l.debt? ref' with
          | none => rfl
          | some d' =>
              obtain ⟨apart, steady⟩ := h ref ref' d d' hne hd hd'
              exact pay_comm l.files apart steady
    exact congrArg₂ Ledger.mk hlooks hfiles

/-- The order in which pages are given up does not matter. -/
theorem Fair.settle_perm (h : l.Fair) (perm : refs.Perm refs') :
    refs.foldl settle l = refs'.foldl settle l := by
  -- fairness is lost by no page that goes, so the first two pages may change places at any point
  induction perm generalizing l with
  | nil => rfl
  | cons ref _ ih => exact ih (h.settled ref)
  | swap ref ref' rest => exact congrArg (rest.foldl settle) (h.settle_comm ref' ref)
  | trans _ _ ih ih' => exact (ih h).trans (ih' h)

theorem foldl_settle_looks (l : Ledger) (refs : List PageRef) (ref : PageRef) :
    (refs.foldl settle l).looks ref = if ref ∈ refs then none else l.looks ref := by
  induction refs generalizing l with
  | nil => rfl
  | cons first rest ih =>
      rw [List.foldl_cons, ih]
      by_cases hrest : ref ∈ rest
      · rw [if_pos hrest, if_pos (List.mem_cons_of_mem first hrest)]
      · rw [if_neg hrest]
        by_cases hfirst : ref = first
        · rw [if_pos (hfirst ▸ List.mem_cons_self), hfirst]
          exact update_self _ _ _
        · rw [if_neg fun h => (List.mem_cons.1 h).elim hfirst hrest]
          exact update_of_ne hfirst _ _

end Ledger

def Machine.stored (m : Machine) (id : FileId) : File := { m.file id with handles := 0 }

def Machine.ledger (m : Machine) : Ledger := ⟨m.core.looks, m.stored⟩

variable {α : Type} {m m' : Machine} {s : SpaceId} {ref entry : PageRef} {u : Unit}

theorem Keeps.stored {x : KernelM α} (h : Keeps Machine.files x) : Keeps Machine.stored x := by
  intro m a m' hrun
  funext id
  simp only [Machine.stored, Machine.file, h hrun]

theorem useFile_stored {id : FileId} {f : File → α × File} {a : α} {file : File}
    (h : useFile id f m = .ok a m') (hf : { (f (m.file id)).2 with handles := 0 } = file) :
    m'.stored = update m.stored id file := by
  funext i
  simp only [Machine.stored, useFile_file h, Function.update_apply]
  split
  · exact hf
  · rfl

theorem closeFile_stored (id : FileId) : Keeps Machine.stored (closeFile id) := fun m _ _ h =>
  (useFile_stored h rfl).trans (Function.update_eq_self id m.stored)

theorem closeInitializer_stored (init : Option Initializer) :
    Keeps Machine.stored (closeInitializer init) := by
  rcases init with _ | (_ | _ | _)
  · exact .pure _
  · exact closeFile_stored _
  · exact .pure _
  · exact .pure _

theorem PageKind.close_stored (kind : PageKind) : Keeps Machine.stored kind.close := by
  rcases kind with ⟨_ | _, init⟩ | _ | _
  · exact Keeps.bind (.pure _) fun _ => closeInitializer_stored init
  · exact Keeps.bind (closeFile_stored _) fun _ => closeInitializer_stored init
  · exact .pure _
  · exact closeFile_stored _

theorem writeBack_stored {backing : FileBacking} {bytes : PageBytes} {whole : Bool}
    (h : backing.writeBack bytes m = .ok whole m') :
    m'.stored = Debt.pay m.stored ⟨backing, bytes⟩ := by
  obtain ⟨written, m₁, h₁, h⟩ := bind_ok.1 h
  have hreported : m'.stored = m₁.stored :=
    Keeps.stored (.ite (.pure _) ((emit_files _).bind fun _ => .pure _)) h
  rw [hreported]
  exact useFile_stored h₁ (File.writeAt_uncounted _ _ _)

theorem dispose_stored {kind : PageKind} {phys : Option PhysPage} {writable : Bool}
    (h : kind.dispose phys writable entry m = .ok u m') :
    m'.stored = (Look.debt? ⟨kind, writable, phys.map m.core.memory.read, m.core.dirty entry⟩).elim
      m.stored (Debt.pay m.stored) := by
  cases kind with
  | uninit target init =>
      obtain ⟨-, rfl⟩ := pure_ok.1 h
      rfl
  | anon slot =>
      cases slot with
      | none =>
          obtain ⟨-, rfl⟩ := pure_ok.1 h
          rfl
      | some slot => exact (freeSlot_keeps slot).stored h
  | file backing =>
      cases phys with
      | none =>
          obtain ⟨-, rfl⟩ := pure_ok.1 h
          cases writable <;> rfl
      | some phys =>
          obtain ⟨dirty, _, h₁, h⟩ := bind_ok.1 h
          obtain ⟨rfl, rfl⟩ := isDirty_core h₁
          cases writable with
          | false =>
              obtain ⟨-, rfl⟩ := pure_ok.1 h
              rfl
          | true =>
              rw [Bool.true_and] at h
              cases hdirty : m.core.dirty entry with
              | false =>
                  rw [hdirty] at h
                  obtain ⟨-, rfl⟩ := pure_ok.1 h
                  rfl
              | true =>
                  rw [hdirty] at h
                  obtain ⟨bytes, _, h₂, h⟩ := bind_ok.1 h
                  obtain ⟨rfl, rfl⟩ := readPhys_core h₂
                  obtain ⟨whole, m₁, h₃, h⟩ := bind_ok.1 h
                  have hcleaned : m'.stored = m₁.stored :=
                    Keeps.stored (.ite (setDirty_keeps _ _) (.pure _)) h
                  exact hcleaned.trans (writeBack_stored h₃)

theorem vacate_stored {page : Page} (hs : m.core.Sound) (found : m.core.pages.find? ref = some page)
    {m₁ : Machine} (hm₁ : m₁.core = { m.core with pages := m.core.pages.erase ref })
    (h : vacate ref page m₁ = .ok u m') :
    m'.stored = ((m.core.lookOf ref page).debt?).elim m₁.stored (Debt.pay m₁.stored) := by
  have hentry := hs.entryRef found
  cases hframe : page.frame with
  | none =>
      simp only [vacate, hframe] at h
      rw [dispose_stored h, lookOf_away hframe, hentry, hm₁]
      rfl
  | some id =>
      simp only [vacate, hframe] at h
      obtain ⟨phys, _, h₁, h⟩ := bind_ok.1 h
      obtain ⟨frame, owned, rfl, rfl⟩ := physPage_core h₁
      obtain ⟨_, m₂, h₂, h⟩ := bind_ok.1 h
      have hrest : m'.stored = m₂.stored :=
        Keeps.stored ((clearMapping_keeps _).bind fun _ => unlink_keeps _ _) h
      have hframes : m₁.core.frames = m.core.frames := by rw [hm₁]
      rw [hframes] at owned
      rw [hrest, dispose_stored h₂, lookOf_resident hframe owned, hentry, hm₁]
      rfl

theorem removeRef_ledger {removed : Bool} (hs : m.core.Sound)
    (h : removeRef ref m = .ok removed m') : m'.ledger = m.ledger.settle ref := by
  have hlooks : m'.core.looks = update m.core.looks ref none := by
    rcases removeRef_core h with ⟨-, vacant, hm'⟩ | ⟨-, -, hstep⟩
    · rw [hm', ← looks_vacant vacant, Function.update_eq_self]
    · have hmove := hstep.move hs fun ⟨d, hd, hw⟩ => by
        rw [List.mem_singleton.1 hd] at hw
        exact hw.elim
      generalize m'.core.looks = L, m'.core.files = F at hmove
      cases hmove with
      | fill _ _ settles => exact (settles _ List.mem_cons_self).elim
      | drop => rfl
      | dropWriting => rfl
  have hstored : m'.stored = (m.ledger.debt? ref).elim m.stored (Debt.pay m.stored) := by
    rw [Ledger.debt?]
    rcases removeRef_parts h with ⟨-, absent, rfl⟩ | ⟨-, page, m₁, m₂, found, dropped, vacated, closed⟩
    · rw [show m.ledger.looks ref = none from looks_vacant absent]
      rfl
    · rw [page.kind.close_stored closed, vacate_stored hs found (dropPage_core dropped) vacated,
        (dropPage_keeps ref).stored dropped, show m.ledger.looks ref = some _ from looks_found found]
      rfl
  exact congrArg₂ Ledger.mk hlooks hstored

theorem destroyPages_ledger {vpns : List PageNum} (hs : m.core.Sound)
    (h : destroyPages s vpns m = .ok u m') :
    m'.ledger = (vpns.map (PageRef.mk s)).foldl Ledger.settle m.ledger := by
  induction vpns generalizing m with
  | nil =>
      obtain ⟨-, rfl⟩ := pure_ok.1 h
      rfl
  | cons vpn rest ih =>
      obtain ⟨removed, m₁, h₁, h⟩ := bind_ok.1 h
      have hs₁ : m₁.core.Sound := by
        rcases removeRef_core h₁ with ⟨-, -, hm₁⟩ | ⟨-, -, hstep⟩
        · exact hm₁ ▸ hs
        · exact hstep.steps.sound hs
      rw [ih hs₁ h, removeRef_ledger hs h₁]
      rfl

theorem teardown_ledger {order : Traversal} (hs : m.core.Sound) (h : teardown s order m = .ok u m') :
    m'.ledger =
      ((order.visit (m.pageNumbers s)).map (PageRef.mk s)).foldl Ledger.settle m.ledger := by
  rcases teardown_parts h with ⟨empty, rfl⟩ | ⟨-, console, h⟩
  · have hperm := order.perm (m.pageNumbers s)
    rw [empty] at hperm ⊢
    rw [hperm.eq_nil]
    rfl
  · have hs₁ := (Step.chart (m.regions.filterKeys fun ref => ref.space != s)).sound hs
    exact (destroyPages_ledger (by exact hs₁) h).trans rfl

end DemandPaging
