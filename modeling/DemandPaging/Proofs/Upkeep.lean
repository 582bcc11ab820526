import DemandPaging.Proofs.Runs
import DemandPaging.Proofs.Tidy

/-!
Every request leaves a tidy machine tidy, whatever it comes to, and panics only when there is no
memory to be had.
-/

namespace DemandPaging

open DemandPaging.Core

variable {α β : Type} {n : Nat} {loan : HandleCount} {m m' : Machine} {E : Panic → Machine → Prop}
  {s : SpaceId} {va : VirtAddr}

/-- The computation leaves a tidy machine tidy, or panics as `E` allows. -/
def Upholds (E : Panic → Machine → Prop) (n : Nat) (loan : HandleCount) (x : KernelM α) : Prop :=
  ∀ ⦃m⦄, m.Tidy n loan → Ends E x m fun _ m' => m'.Tidy n loan

namespace Upholds

theorem pure (a : α) : Upholds E n loan (Pure.pure a) := fun _ h => .pure h

theorem bind {x : KernelM α} {f : α → KernelM β} (hx : Upholds E n loan x)
    (hf : ∀ a, Upholds E n loan (f a)) : Upholds E n loan (x >>= f) := fun _ h =>
  (hx h).bind fun a _ _ h₁ => hf a h₁

theorem ite {p : Prop} [Decidable p] {x y : KernelM α} (hx : Upholds E n loan x)
    (hy : Upholds E n loan y) : Upholds E n loan (if p then x else y) := by
  split
  · exact hx
  · exact hy

theorem same {x : KernelM α} (safe : Safe x) (core : ∀ m a m', x m = .ok a m' → m'.core = m.core)
    (handles : KeepsHandles x) : Upholds E n loan x := fun m h =>
  safe.ends fun a m' hrun => h.same (core m a m' hrun) (handles hrun)

theorem mono {x : KernelM α} {E' : Panic → Machine → Prop} (hx : Upholds E n loan x)
    (hE : ∀ e m, E e m → E' e m) : Upholds E' n loan x := fun _ h =>
  (hx h).mono hE fun _ _ _ h => h

theorem page {f : Option Page → KernelM α} {ref : PageRef}
    (hf : ∀ ⦃m⦄, m.Tidy n loan → Ends E (f (m.core.pages.find? ref)) m fun _ m' => m'.Tidy n loan) :
    Upholds E n loan (page? ref >>= f) := fun m h => by
  refine (page?_safe ref).next fun found m₁ h₁ => ?_
  obtain ⟨rfl, rfl⟩ := page?_core h₁
  exact hf h

end Upholds

open Upholds

theorem get_upholds : Upholds E n loan (get : KernelM Machine) :=
  .same Safe.get (fun _ _ _ h => by rw [(get_ok.1 h).2]) .get

theorem emit_upholds (event : Event) : Upholds E n loan (emit event) :=
  .same (emit_safe event) (fun _ _ _ h => emit_core h) (emit_files event).handles

theorem resolve_upholds (ref : PageRef) (write : Bool) :
    Upholds Exhausted n loan (resolve ref write) := .page fun m h => by
  cases found : m.core.pages.find? ref with
  | none => exact .pure h
  | some page =>
      dsimp only
      split
      · exact (emit_upholds _).bind (fun _ => .pure _) h
      · cases hframe : page.frame with
        | none => exact claimVacant_tidy h found hframe
        | some id =>
            dsimp only
            split
            · exact breakSharing_tidy h found hframe
            · obtain ⟨frame, owned, -⟩ := h.sound.owned.frame_of ref page id found hframe
              refine (touch_tidy h found).bind fun page' m₁ h₁ htidy => ?_
              obtain ⟨rfl, hm₁⟩ := touch_core h₁
              have owned₁ : m₁.core.frames.find? id = some frame := by
                rw [hm₁]
                exact owned
              refine (physPage_ends owned₁).bind fun _ _ _ ⟨hphys, hm⟩ => ?_
              subst hphys hm
              refine remap_tidy htidy ?_ hframe owned₁
              rw [hm₁]
              exact stamp_found _ _ _

theorem claim_upholds (ref : PageRef) : Upholds Exhausted n loan (claim ref) := .page fun m h => by
  cases found : m.core.pages.find? ref with
  | none => exact .pure h
  | some page =>
      dsimp only
      split
      · exact .pure h
      · next hframe =>
          refine claimVacant_tidy h found ?_
          rwa [Option.not_isSome_iff_eq_none] at hframe

theorem find_upholds (s : SpaceId) (va : VirtAddr) : Upholds Exhausted n loan (find s va) :=
  .page fun m h => by
    cases found : m.core.pages.find? ⟨s, va.vpnFloor⟩ with
    | none => exact .pure h
    | some page => exact (touch_tidy h found).bind fun _ _ _ h => .pure h

theorem pageType_upholds (s : SpaceId) (va : VirtAddr) : Upholds E n loan (pageType s va) :=
  .page fun _ h => .pure h

theorem claimPage_upholds (s : SpaceId) (va : VirtAddr) : Upholds Exhausted n loan (claimPage s va) :=
  (find_upholds s va).bind fun found => by
    cases found with
    | none => exact .pure _
    | some _ => exact claim_upholds _

theorem declare_ends {writable : Bool} {target : PageTarget} {init : Option Initializer}
    (h : m.Tidy n (loan + (PageKind.uninit target init).handles)) :
    Ends E (declare s va writable target init) m fun _ m' => m'.Tidy n loan := by
  unfold declare
  dsimp only
  split
  · exact addPage_tidy h nofun
  · refine (emit_upholds _ h).bind fun _ m₁ _ h₁ => ?_
    refine (PageKind.close_safe _).next fun _ m₂ h₂ => .pure ?_
    refine h₁.of_core (PageKind.close_core h₂) ?_
    rw [← PageKind.close_returns _ h₂]
    ac_rfl

theorem declareAnon_upholds (writable : Bool) : Upholds E n loan (declare s va writable .anon none) :=
  fun m h => declare_ends (h.of_core rfl (by
    change m.handles + loan = m.handles + (loan + (0 + 0))
    rw [add_zero, add_zero]))

theorem destroyPages_upholds (s : SpaceId) (vpns : List PageNum) :
    Upholds E n loan (destroyPages s vpns) := by
  induction vpns with
  | nil => exact .pure _
  | cons vpn rest ih => exact Upholds.bind (fun _ h => removeRef_tidy h _) fun _ => ih

theorem removePages_upholds (s : SpaceId) (vpns : List PageNum) :
    Upholds E n loan (removePages s vpns) := by
  rw [removePages_eq]
  exact destroyPages_upholds _ _

theorem chart_upholds {f : Machine → Table PageRef Nat}
    (hf : ∀ m : Machine, m.core.Charted → Charted { m.core with regions := f m }) :
    Upholds E n loan (modify fun m => { m with regions := f m }) := fun m h =>
  (Safe.modify _).ends fun _ m' hrun => by
    obtain rfl := modify_ok.1 hrun
    exact ⟨(Step.chart _).sound h.sound, (Step.chart _).accounted h.sound h.accounted, h.busy,
      hf m h.charted, h.handles⟩

theorem teardown_upholds (s : SpaceId) (order : Traversal) : Upholds E n loan (teardown s order) :=
  get_upholds.bind fun m => .ite (.pure _) <|
    (emit_upholds _).bind fun _ => Upholds.bind (chart_upholds fun m h ref count hc => by
      change (m.regions.filterKeys _).find? ref = some count at hc
      rw [Table.find?_filterKeys] at hc
      split at hc
      · exact h ref count hc
      · cases hc) fun _ => destroyPages_upholds _ _

theorem exitSpace_upholds (s : SpaceId) (order : Traversal) : Upholds E n loan (exitSpace s order) :=
  (teardown_upholds s order).bind fun _ =>
    .same (Safe.modify _) (fun _ _ _ h => modify_core h fun _ => rfl) (.modify fun _ => rfl)

theorem copyUnused_upholds (src : Page) (dst : PageRef) : Upholds E n loan (copyUnused src dst) :=
  fun m h => by
    refine src.kind.duplicate_safe.next fun kind m₁ h₁ => ?_
    obtain ⟨hm₁, htwin⟩ := PageKind.duplicate_core h₁
    have hopened := src.kind.duplicate_lends h₁
    cases kind with
    | none =>
        refine ((emit_upholds _).bind fun _ => .pure _) (h.same hm₁ ?_)
        rw [hopened]
        exact add_zero _
    | some kind =>
        refine addPage_tidy (h.of_core hm₁ ?_) ?_
        · rw [hopened]
          exact (add_assoc _ _ _).trans (congrArg (m.handles + ·) (add_comm _ _))
        · rw [htwin kind rfl]
          exact PageKind.slot?_eq_none.1 (PageKind.slot?_twin _)

theorem copyUsed_ends {src dst : PageRef} {page : Page} (h : m.Tidy n loan)
    (found : m.core.pages.find? src = some page) :
    Ends Exhausted (copyUsed src dst page) m fun _ m' => m'.Tidy n loan := by
  have hback : Ends Exhausted (bringBack src page) m fun _ m' => m'.Tidy n loan := by
    unfold bringBack
    split
    · exact .pure h
    · next hframe => exact claimVacant_tidy h found (by rwa [Option.not_isSome_iff_eq_none] at hframe)
  refine hback.bind fun back m₁ _ h₁ => Upholds.ite (.page fun m₂ h₂ => ?_) (.pure _) h₁
  cases found : m₂.core.pages.find? src with
  | none => exact .pure h₂
  | some page =>
      dsimp only
      cases hframe : page.frame with
      | none => exact .pure h₂
      | some id => exact shareFrame_tidy h₂ found hframe

theorem copyPage_upholds (src dst : SpaceId) (vpn : PageNum) :
    Upholds Exhausted n loan (copyPage src dst vpn) := .page fun m h => by
  cases found : m.core.pages.find? ⟨src, vpn⟩ with
  | none => exact .pure h
  | some page =>
      dsimp only
      split
      · exact copyUnused_upholds page _ h
      · exact copyUsed_ends h found

theorem copyPages_upholds (src dst : SpaceId) (vpns : List PageNum) :
    Upholds Exhausted n loan (copyPages src dst vpns) := by
  induction vpns with
  | nil => exact .pure _
  | cons vpn rest ih => exact (copyPage_upholds _ _ _).bind fun _ => .ite ih (.pure _)

theorem Core.Charted.copied {regions : Table PageRef Nat} {rows : List (PageNum × Nat)} (dst : SpaceId)
    (h : ∀ ref count, regions.find? ref = some count → ref.vpn.val + count < wordBound)
    (hrows : ∀ row ∈ rows, row.1.val + row.2 < wordBound) :
    ∀ ref count, (rows.foldl (fun t (vpn, count) => t.insert ⟨dst, vpn⟩ count) regions).find? ref =
      some count → ref.vpn.val + count < wordBound := by
  induction rows generalizing regions with
  | nil => exact h
  | cons row rest ih =>
      refine ih (fun ref count hc => ?_) fun r hr => hrows r (List.mem_cons_of_mem row hr)
      rcases Table.find?_insert_eq_some.1 hc with ⟨rfl, rfl⟩ | ⟨-, hc⟩
      · exact hrows row List.mem_cons_self
      · exact h ref count hc

theorem copySpace_upholds (src dst : SpaceId) (order : Traversal) :
    Upholds Exhausted n loan (copySpace src dst order) :=
  get_upholds.bind fun _ => (copyPages_upholds _ _ _).bind fun _ => .ite
    (Upholds.bind (chart_upholds fun m h => Core.Charted.copied dst h fun row hr => by
      obtain ⟨⟨ref, count⟩, hmem, heq⟩ := List.mem_filterMap.1 hr
      dsimp only at heq
      split at heq
      · cases heq
        exact h ref count (Table.find?_eq_some.2 hmem)
      · exact nomatch heq) fun _ => .pure _) (.pure _)

/-! The arithmetic of regions stays within the machine word. -/

theorem checkedAdd_ends {a b : Nat} (h : a + b < wordBound) :
    Ends E (checkedAdd a b) m fun sum m' => a + b = sum ∧ m = m' := by
  rw [checkedAdd, if_pos h]
  exact .pure ⟨rfl, rfl⟩

theorem checkedSub_ends {a b : Nat} (h : b ≤ a) :
    Ends E (checkedSub a b) m fun left m' => a - b = left ∧ m = m' := by
  rw [checkedSub, if_pos h]
  exact .pure ⟨rfl, rfl⟩

theorem checkedMul_ends {a b : Nat} (h : a * b < wordBound) :
    Ends E (checkedMul a b) m fun product m' => a * b = product ∧ m = m' := by
  rw [checkedMul, if_pos h]
  exact .pure ⟨rfl, rfl⟩

theorem ofHandle_ends {file : FileId} {offset count : Nat} (h : count ≤ pageSize) :
    Ends E (FileBacking.ofHandle file offset count) m fun backing m' =>
      ⟨file, offset, count, h⟩ = backing ∧ m = m' := by
  rw [FileBacking.ofHandle, dif_pos h]
  exact .pure ⟨rfl, rfl⟩

namespace MapRequest

variable {r : MapRequest} {count i : Nat}

structure Fits (r : MapRequest) (pages : Nat) : Prop where
  extent : r.offset + pages * pageSize < wordBound
  stop : r.start.val + pages < wordBound
  covers : ∀ i < pages, i * pageSize ≤ r.length

theorem Fits.stop_lt {pages : Nat} (fits : r.Fits pages) (hi : i ≤ pages) :
    r.start.val + i < wordBound :=
  Nat.lt_of_le_of_lt (Nat.add_le_add_left hi _) fits.stop

theorem Valid.covers {pages : Nat} (h : r.Valid pages) (hi : i < pages) : i * pageSize ≤ r.length := by
  have hall : pages * pageSize ≤ r.length + (pageSize - 1) := h.count ▸ Nat.div_mul_le_self _ _
  have hnext : (i + 1) * pageSize ≤ pages * pageSize := Nat.mul_le_mul_right _ hi
  rw [Nat.succ_mul] at hnext
  have hsum := hnext.trans hall
  generalize i * pageSize = before at hsum ⊢
  simp only [pageSize] at hsum
  omega

theorem Valid.bounds {pages : Nat} (h : r.Valid pages) :
    0 < pages ∧ pages * pageSize < wordBound ∧ r.start.val + pages < wordBound := by
  obtain ⟨hcount, hpositive, huser⟩ := h
  simp only [pageSize, userSpaceEnd, wordBound] at *
  refine ⟨?_, ?_, ?_⟩ <;> omega

theorem declarePage_ends {pages : Nat} (fits : r.Fits pages) (hi : i < pages) (h : m.Tidy n loan) :
    Ends E (r.declarePage i) m fun _ m' => m'.Tidy n loan := by
  have hextent : r.offset + i * pageSize < wordBound :=
    Nat.lt_of_le_of_lt (Nat.add_le_add_left (Nat.mul_le_mul_right _ (Nat.le_of_lt hi)) _) fits.extent
  refine (checkedMul_ends (Nat.lt_of_le_of_lt (Nat.le_add_left _ _) hextent)).bind
    fun _ _ _ ⟨hbefore, hm⟩ => ?_
  subst hbefore hm
  refine (checkedAdd_ends hextent).bind fun _ _ _ ⟨hoffset, hm⟩ => ?_
  subst hoffset hm
  refine (checkedSub_ends (fits.covers i hi)).bind fun _ _ _ ⟨hleft, hm⟩ => ?_
  subst hleft hm
  refine (useFile_safe _ _).next fun granted m₁ h₁ => ?_
  have hopened := reopen_handles h₁
  cases granted with
  | false =>
      refine .pure (h.same (reopen_core h₁) ?_)
      rw [hopened]
      exact add_zero _
  | true =>
      refine (ofHandle_ends (Nat.le_trans (Nat.min_le_left _ _) (Nat.min_le_left _ _))).bind
        fun _ _ _ ⟨hbacking, hm⟩ => ?_
      subst hbacking hm
      refine (checkedAdd_ends (fits.stop_lt (Nat.le_of_lt hi))).bind fun _ _ _ ⟨hvpn, hm⟩ => ?_
      subst hvpn hm
      refine declare_ends (h.of_core (reopen_core h₁) ?_)
      rw [hopened, if_pos rfl]
      change m.handles + handlesOf r.file 1 + loan = m.handles + (loan + (handlesOf r.file 1 + 0))
      rw [add_zero]
      ac_rfl

theorem declarePages_ends {pages : Nat} (fits : r.Fits pages) (hi : i + count ≤ pages)
    (h : m.Tidy n loan) : Ends E (r.declarePages count i) m fun _ m' => m'.Tidy n loan := by
  induction count generalizing i m with
  | zero => exact .pure h
  | succ count ih =>
      refine (declarePage_ends fits (by omega) h).bind fun declared m₁ _ h₁ => ?_
      cases declared with
      | true => exact ih (by omega) h₁
      | false =>
          refine (checkedAdd_ends (fits.stop_lt (by omega))).bind fun _ _ _ ⟨_, hm⟩ => ?_
          subst hm
          exact ((removePages_upholds _ _).bind fun _ => .pure _) h₁

end MapRequest

theorem map_upholds (s : SpaceId) (va : VirtAddr) (length : Nat) (writable : Bool) (file : FileId)
    (offset : Nat) : Upholds E n loan (map s va length writable file offset) := by
  unfold map
  split
  · exact (emit_upholds _).bind fun _ => .pure _
  · next hgood =>
      simp only [Bool.or_eq_true, not_or, Bool.not_eq_true, Bool.not_eq_false', beq_eq_false_iff_ne]
        at hgood
      cases hstop : va.add? length with
      | none => exact .pure _
      | some stop =>
          dsimp only
          split
          · exact .pure _
          · next huser =>
              refine get_upholds.bind fun m₀ => .ite ((emit_upholds _).bind fun _ => .pure _) ?_
              intro m h
              obtain ⟨hvalid, -⟩ := MapRequest.valid_of_checks hgood.1 hstop huser
              have hrequest := hvalid s writable file (m₀.file file).length offset
              obtain ⟨hpages, hextent, hlast⟩ := hrequest.bounds
              refine (checkedSub_ends (Nat.le_of_lt (Nat.lt_of_sub_pos hpages))).bind
                fun _ _ _ ⟨hcount, hm⟩ => ?_
              subst hcount hm
              refine (checkedMul_ends hextent).bind fun _ _ _ ⟨hproduct, hm⟩ => ?_
              subst hproduct hm
              split
              · exact ((emit_upholds _).bind fun _ => .pure _) h
              · next hfits =>
                  refine (checkedAdd_ends hlast).bind fun _ _ _ ⟨hsum, hm⟩ => ?_
                  subst hsum hm
                  refine get_upholds.bind (fun _ => .ite ((emit_upholds _).bind fun _ => .pure _) ?_) h
                  refine Upholds.bind (fun _ h₁ => MapRequest.declarePages_ends ⟨Nat.lt_of_not_le hfits,
                    hlast, fun _ => hrequest.covers⟩ (Nat.zero_add _).le h₁) fun _ => ?_
                  refine .ite (Upholds.bind (chart_upholds fun m hc ref count hfound => ?_) fun _ =>
                    (emit_upholds _).bind fun _ => .pure _) (.pure _)
                  rcases Table.find?_insert_eq_some.1 hfound with ⟨rfl, rfl⟩ | ⟨-, hfound⟩
                  · exact hlast
                  · exact hc ref count hfound

theorem unmap_upholds (s : SpaceId) (va : VirtAddr) : Upholds E n loan (unmap s va) := by
  unfold unmap
  refine .ite (fun m h => ?_) (.pure _)
  refine Safe.get.next fun _ _ hget => ?_
  obtain ⟨rfl, rfl⟩ := get_ok.1 hget
  cases found : m.regions.find? ⟨s, va.vpnFloor⟩ with
  | none => exact ((emit_upholds _).bind fun _ => .pure _) h
  | some pages =>
      have hlast : va.vpnFloor.val + pages < wordBound := h.charted _ _ found
      refine Upholds.bind (chart_upholds fun m hc ref count hfound => ?_) (fun _ m₁ h₁ => ?_) h
      · exact hc ref count (Table.find?_erase_eq_some.1 hfound).2
      · refine (checkedAdd_ends hlast).bind fun _ _ _ result => ?_
        obtain ⟨-, rfl⟩ := result
        exact ((removePages_upholds _ _).bind fun _ => (emit_upholds _).bind fun _ => .pure _) h₁

theorem resolveFault_upholds (s : SpaceId) (addr sp : VirtAddr) (flags : FaultFlags) :
    Upholds Exhausted n loan (resolveFault s addr sp flags) :=
  (emit_upholds _).bind fun _ => .ite ((emit_upholds _).bind fun _ => .pure _) <|
    .ite ((emit_upholds _).bind fun _ => .pure _) <| (find_upholds s addr).bind fun found => by
      cases found with
      | some _ => exact resolve_upholds _ _
      | none =>
          exact .ite ((emit_upholds _).bind fun _ => (declareAnon_upholds true).bind fun _ =>
            .ite (resolve_upholds _ _) (.pure _)) ((emit_upholds _).bind fun _ => .pure _)

theorem checkPages_upholds (s : SpaceId) (va : VirtAddr) (length : Nat) (write : Bool) (count : Nat)
    (vpn : PageNum) : Upholds E n loan (checkPages s va length write count vpn) := by
  induction count generalizing vpn with
  | zero => exact .pure _
  | succ count ih =>
      refine .page fun m h => ?_
      cases m.core.pages.find? ⟨s, vpn⟩ with
      | none => exact ((emit_upholds _).bind fun _ => .pure _) h
      | some page => exact Upholds.ite ((emit_upholds _).bind fun _ => .pure _) (ih _) h

theorem checkUserRange_upholds (s : SpaceId) (va : VirtAddr) (length : Nat) (write : Bool) :
    Upholds E n loan (checkUserRange s va length write) := by
  refine .ite (.pure _) ?_
  cases va.add? length with
  | none => exact .pure _
  | some stop => exact .ite (.pure _) (checkPages_upholds _ _ _ _ _ _)

/-! Accesses of users. -/

theorem mapping?_upholds (s : SpaceId) (va : VirtAddr) : Upholds E n loan (mapping? s va) :=
  get_upholds.bind fun _ => .pure _

theorem readPhys_upholds (phys : PhysPage) : Upholds E n loan (readPhys phys) :=
  get_upholds.bind fun _ => .pure _

theorem readMapped_upholds (s : SpaceId) (va : VirtAddr) (count : Nat) :
    Upholds E n loan (readMapped s va count) :=
  (mapping?_upholds s va).bind fun found => by
    cases found with
    | none => exact .pure _
    | some mapping => exact (readPhys_upholds _).bind fun _ => .pure _

theorem writeMapped_safe (s : SpaceId) (va : VirtAddr) (bytes : Array UInt8) :
    Safe (writeMapped s va bytes) :=
  (Safe.get.bind fun _ => .pure _ : Safe (mapping? s va)).bind fun found => by
    cases found with
    | none => exact .pure _
    | some mapping =>
        exact .ite ((readPhys_safe _).bind fun _ => (writePhys_safe _ _).bind fun _ =>
          (setDirty_safe _ _).bind fun _ => .pure _) (.pure _)

theorem mapping?_keeps {γ : Type} {view : Machine → γ} (s : SpaceId) (va : VirtAddr) :
    Keeps view (mapping? s va) :=
  Keeps.get.bind fun _ => .pure _

theorem writeMapped_keeps {γ : Type} {view : Machine → γ} [Aside view] (s : SpaceId) (va : VirtAddr)
    (bytes : Array UInt8) : Keeps view (writeMapped s va bytes) :=
  (mapping?_keeps s va).bind fun found => by
    cases found with
    | none => exact .pure _
    | some mapping =>
        exact .ite ((readPhys_keeps _).bind fun _ => (writePhys_keeps _ _).bind fun _ =>
          (setDirty_keeps _ _).bind fun _ => .pure _) (.pure _)

theorem Core.Step.busy_write {c c' : Core} {ref : PageRef} {offset : Nat} {bytes : Array UInt8}
    (h : Step c [.write ref offset bytes] c') (hb : c.Busy) : c'.Busy := by
  cases h with
  | write => exact hb
  | fill _ _ _ filled => exact (filled.settles.1 _ List.mem_cons_self).elim

theorem writeMapped_ends {bytes : Array UInt8} (fits : va.pageOffset + bytes.size ≤ pageSize)
    (h : m.Tidy n loan) : Ends E (writeMapped s va bytes) m fun _ m' => m'.Tidy n loan := by
  refine (writeMapped_safe s va bytes).ends fun done m' hrun => ?_
  rcases writeMapped_core fits hrun with ⟨-, hstep⟩ | ⟨-, rfl⟩
  · refine h.quiet hstep.steps (fun d hd => ?_) (fun t ht => nomatch List.mem_singleton.1 ht)
      (hstep.busy_write h.busy) (writeMapped_keeps _ _ _ hrun)
    rw [List.mem_singleton.1 hd]
    trivial
  · exact h

theorem faultIn_upholds (s : SpaceId) (va sp : VirtAddr) (write : Bool) :
    Upholds Exhausted n loan (faultIn s va sp write) :=
  (mapping?_upholds s va).bind fun _ => resolveFault_upholds _ _ _ _

theorem readPiece_upholds (s : SpaceId) (va sp : VirtAddr) (count : Nat) :
    Upholds Exhausted n loan (readPiece s va sp count) :=
  (readMapped_upholds s va count).bind fun got => by
    cases got with
    | some bytes => exact .pure _
    | none =>
        exact (faultIn_upholds s va sp false).bind fun _ => .ite (readMapped_upholds _ _ _) (.pure _)

theorem writePiece_ends {sp : VirtAddr} {bytes : Array UInt8}
    (fits : va.pageOffset + bytes.size ≤ pageSize) (h : m.Tidy n loan) :
    Ends Exhausted (writePiece s va sp bytes) m fun _ m' => m'.Tidy n loan := by
  refine Upholds.bind (fun _ h₁ => writeMapped_ends fits h₁) (fun _ => .ite (.pure _) ?_) h
  exact (faultIn_upholds s va sp true).bind fun _ =>
    .ite (fun _ h₁ => writeMapped_ends fits h₁) (.pure _)

theorem readPieces_upholds (s : SpaceId) (va sp : VirtAddr) (length count i : Nat)
    (got : Array UInt8) : Upholds Exhausted n loan (readPieces s va sp length count i got) := by
  induction count generalizing i got with
  | zero => exact .pure _
  | succ count ih =>
      refine (readPiece_upholds _ _ _ _).bind fun bytes => ?_
      cases bytes with
      | none => exact .pure _
      | some bytes => exact ih _ _

theorem writePieces_upholds (s : SpaceId) (va sp : VirtAddr) (bytes : Array UInt8) {count i : Nat}
    (hi : i + count = pieceCount va.pageOffset bytes.size) :
    Upholds Exhausted n loan (writePieces s va sp bytes count i) := by
  induction count generalizing i with
  | zero => exact .pure _
  | succ count ih =>
      have hlt : i < pieceCount va.pageOffset bytes.size := by omega
      rw [writePieces_succ hlt]
      exact Upholds.bind (fun m h => writePiece_ends (extract_fits hlt) h) fun _ =>
        .ite (ih (by omega)) (.pure _)

/-! What a request hands over to the pager, and takes back from it. -/

theorem openFile_ends {id : FileId} (h : m.Tidy n loan) :
    Ends E (openFile id) m fun _ m' => m'.Tidy n (loan + handlesOf id 1) :=
  (openFile_safe id).ends fun _ m' hrun => h.of_core (openFile_core hrun) (by
    rw [openFile_handles hrun]
    ac_rfl)

theorem closeFile_ends {id : FileId} (h : m.Tidy n (loan + handlesOf id 1)) :
    Ends E (closeFile id) m fun _ m' => m'.Tidy n loan :=
  (closeFile_safe id).ends fun _ m' hrun => h.of_core (closeFile_core hrun) (by
    rw [← closeFile_handles hrun]
    ac_rfl)

def TargetRequest.Sized : TargetRequest → Prop
  | anon => True
  | file _ _ count => count ≤ pageSize

def InitializerRequest.Sized : InitializerRequest → Prop
  | segment _ _ count => count ≤ pageSize
  | program _ => True

def InitializerRequest.SizedAll (init : Option InitializerRequest) : Prop := ∀ i ∈ init, i.Sized

def KindRequest.Sized : KindRequest → Prop
  | anon => True
  | file _ _ count => count ≤ pageSize
  | uninit target init => target.Sized ∧ InitializerRequest.SizedAll init

theorem newBacking_ends {id : FileId} {offset count : Nat} (h : m.Tidy n loan) :
    Ends (fun _ _ => ¬ count ≤ pageSize) (newBacking id offset count) m fun backing m' =>
      m'.Tidy n (loan + backing.handles) := by
  refine (openFile_ends h).bind fun _ m₁ _ h₁ => ?_
  by_cases hcount : count ≤ pageSize
  · refine (ofHandle_ends hcount).imp fun _ _ _ ⟨hbacking, hm⟩ => ?_
    subst hbacking hm
    exact h₁
  · rw [FileBacking.ofHandle, dif_neg hcount]
    exact hcount

theorem TargetRequest.make_ends (request : TargetRequest) (h : m.Tidy n loan) :
    Ends (fun _ _ => ¬ request.Sized) request.make m fun target m' =>
      m'.Tidy n (loan + target.handles) := by
  cases request with
  | anon => exact .pure (by rwa [PageTarget.handles, add_zero])
  | file id offset count => exact (newBacking_ends h).bind fun _ _ _ h₁ => .pure h₁

theorem addProgram_ends {routine : Program} (h : m.Tidy n loan) :
    Ends E (addProgram routine) m fun _ m' => m'.Tidy n loan :=
  (Safe.modifyGet _).ends fun id m' hrun => by
    obtain ⟨hstep, -⟩ := addProgram_core h.sound hrun
    have hm' : m' = { m with programs := m.programs.insert m.programs.size routine } :=
      (congrArg Prod.snd (modifyGet_ok.1 hrun)).symm
    refine h.quiet hstep.steps nofun nofun (h.busy.of_frames ?_) ?_
    · rw [hm']
      rfl
    · rw [hm']
      rfl

theorem makeInitializer_ends (request : Option InitializerRequest) (h : m.Tidy n loan) :
    Ends (fun _ _ => ¬ InitializerRequest.SizedAll request) (makeInitializer request) m
      fun init m' => m'.Tidy n (loan + init.elim 0 Initializer.handles) := by
  rcases request with _ | (⟨id, offset, count⟩ | routine)
  · exact .pure (by rwa [Option.elim_none, add_zero])
  · refine Ends.bind (Q := fun init m' => m'.Tidy n (loan + init.handles)) ?_
      fun _ _ _ h₁ => .pure h₁
    refine (newBacking_ends h).mono (fun _ _ he hsized => he (hsized _ rfl)) ?_ |>.bind
      fun _ _ _ h₁ => .pure h₁
    exact fun _ _ _ h₁ => h₁
  · refine Ends.bind (Q := fun init m' => m'.Tidy n (loan + init.handles)) ?_
      fun _ _ _ h₁ => .pure h₁
    exact (addProgram_ends h).bind fun id _ _ h₁ => .pure (by rwa [← add_zero loan] at h₁)

theorem KindRequest.make_ends (request : KindRequest) (h : m.Tidy n loan) :
    Ends (fun _ _ => ¬ request.Sized) request.make m fun kind m' =>
      m'.Tidy n (loan + kind.handles) := by
  cases request with
  | anon => exact .pure (by rwa [PageKind.handles, add_zero])
  | file id offset count => exact (newBacking_ends h).bind fun _ _ _ h₁ => .pure h₁
  | uninit target init =>
      refine ((target.make_ends h).mono (fun _ _ he hsized => he hsized.1)
        fun _ _ _ h₁ => h₁).bind fun target m₁ _ h₁ => ?_
      refine ((makeInitializer_ends init h₁).mono (fun _ _ he hsized => he hsized.2)
        fun _ _ _ h₂ => h₂).bind fun init m₂ _ h₂ => .pure ?_
      rwa [PageKind.handles, ← add_assoc]

theorem Machine.Tidy.apart {mappings : Table PageRef Mapping} {files : FileId → FileFace}
    {grants : SpaceId → Nat → Bool} (h : m.Tidy n loan)
    (core : m'.core = { m.core with mappings, files, grants })
    (mapped : Mapped m.core.pages.find? m.core.frames.find? mappings.find?)
    (handles : m'.handles = m.handles) : m'.Tidy n loan := by
  constructor
  case sound =>
    rw [core]
    exact ⟨h.sound.owned, mapped, h.sound.slotted, h.sound.pooled, h.sound.table, h.sound.programs⟩
  case accounted =>
    rw [core]
    exact ⟨h.accounted.stocked, h.accounted.stored⟩
  case busy =>
    rw [core]
    exact h.busy
  case charted =>
    rw [core]
    exact h.charted
  case handles =>
    rw [core, handles]
    exact h.handles

theorem setDirty_upholds (entry : PageRef) (dirty : Bool) :
    Upholds E n loan (setDirty entry dirty) := fun m h =>
  (setDirty_safe entry dirty).ends fun _ m' hrun => by
    refine h.apart (setDirty_core hrun) (fun ref mapping hm => ?_)
      (setDirty_keeps _ _ hrun)
    rw [Table.find?_modify] at hm
    split at hm
    · next he =>
        obtain ⟨old, hold, rfl⟩ := Option.map_eq_some_iff.1 hm
        exact h.sound.mapped ref old (he ▸ hold)
    · exact h.sound.mapped ref mapping hm

theorem isDirty_upholds (entry : PageRef) : Upholds E n loan (isDirty entry) :=
  .same (isDirty_safe entry) (fun _ _ _ h => by rw [(isDirty_core h).2]) (isDirty_keeps entry)

theorem clearMapping_upholds (entry : PageRef) : Upholds E n loan (clearMapping entry) := fun m h =>
  (clearMapping_safe entry).ends fun _ m' hrun => by
    refine h.apart (clearMapping_core hrun) (fun ref mapping hm => ?_)
      (clearMapping_keeps _ hrun)
    exact h.sound.mapped ref mapping (Table.find?_erase_eq_some.1 hm).2

theorem holding_upholds {x : KernelM α} (ref : PageRef) (hx : Upholds E n loan x) :
    Upholds E n loan (holding ref x) :=
  have hold (held : List PageRef) :
      Upholds E n loan (modify fun m : Machine => { m with held } : KernelM PUnit) :=
    .same (Safe.modify _) (fun _ _ _ h => modify_core h fun _ => rfl) (.modify fun _ => rfl)
  get_upholds.bind fun _ => (hold _).bind fun _ => hx.bind fun _ => (hold _).bind fun _ => .pure _

namespace Operation

/-- Requests that keep to the rules of the pager's callers: a page that is inserted starts at its own
address, and no range of a file is longer than a page. -/
def Admissible : Operation → Prop
  | declare _ _ _ target init => target.Sized ∧ InitializerRequest.SizedAll init
  | insert _ va _ kind => va.isPageAligned = true ∧ kind.Sized
  | duplicateBacking _ _ count => count ≤ pageSize
  | locked _ _ op => op.Admissible
  | _ => True

/-- A request of a caller who keeps to the rules stops the machine only for want of memory. -/
def Stop (op : Operation) (e : Panic) (m : Machine) : Prop := op.Admissible → Exhausted e m

theorem newSpace_upholds : Upholds E n loan DemandPaging.newSpace := fun _ h =>
  (Safe.modifyGet _).ends fun _ _ hrun => by
    obtain ⟨-, rfl⟩ := Prod.mk.inj (modifyGet_ok.1 hrun)
    exact h.same rfl rfl

theorem setInstalls_upholds (s : SpaceId) (installs : Replies Bool) :
    Upholds E n loan
      (modify fun m => { m with installs := m.installs.insert s installs } : KernelM PUnit) :=
  fun _ h => (Safe.modify _).ends fun _ _ hrun => by
    obtain rfl := modify_ok.1 hrun
    exact h.apart rfl h.sound.mapped rfl

theorem configureFile_upholds (id : FileId) (settings : FileSettings) :
    Upholds E n loan (useFile id fun f => ((), settings.apply f)) := fun _ h =>
  (useFile_safe _ _).ends fun _ _ hrun =>
    h.apart (useFile_core hrun).2 h.sound.mapped (useFile_keeps (fun _ => rfl) hrun)

theorem duplicateBacking_upholds (id : FileId) (offset count : Nat) :
    Upholds (duplicateBacking id offset count).Stop n loan (duplicateBacking id offset count).perform :=
  fun m h => by
    refine ((newBacking_ends h).mono (fun _ _ he hop => (he hop).elim) fun _ _ _ h₁ => h₁).bind
      fun backing m₁ _ h₁ => ?_
    refine backing.duplicate_safe.next fun copy m₂ hcopy => ?_
    have hopened := backing.duplicate_lends hcopy
    have h₂ : m₂.Tidy n (loan + backing.handles + copy.elim 0 FileBacking.handles) :=
      h₁.of_core (FileBacking.duplicate_core hcopy).1 (by rw [hopened]; ac_rfl)
    refine (get_upholds h₂).bind fun _ m₃ _ h₃ => ?_
    have hclosed : Ends (duplicateBacking id offset count).Stop (closeBacking copy) m₃ fun _ m' =>
        m'.Tidy n (loan + backing.handles) := by
      cases copy with
      | none => exact .pure (by rwa [Option.elim_none, add_zero] at h₃)
      | some copy => exact closeFile_ends h₃
    exact hclosed.bind fun _ _ _ h₄ => (closeFile_ends h₄).bind fun _ _ _ h₅ => .pure h₅

/-- A tidy machine stays tidy, whatever it is asked. -/
theorem perform_upholds (op : Operation) : Upholds op.Stop n loan op.perform := by
  have spent {e : Panic} {m : Machine} {op : Operation} (h : Exhausted e m) : op.Stop e m := fun _ => h
  induction op with
  | newSpace => exact newSpace_upholds.bind fun _ => .pure _
  | declare s va writable target init =>
      intro m h
      refine ((target.make_ends h).mono (fun _ _ he hop => (he hop.1).elim)
        fun _ _ _ h₁ => h₁).bind fun target m₁ _ h₁ => ?_
      refine ((makeInitializer_ends init h₁).mono (fun _ _ he hop => (he hop.2).elim)
        fun _ _ _ h₂ => h₂).bind fun init m₂ _ h₂ => ?_
      rw [add_assoc] at h₂
      exact (declare_ends h₂).bind fun _ _ _ h₃ => .pure h₃
  | insert s va writable kind =>
      intro m h
      refine ((kind.make_ends h).mono (fun _ _ he hop => (he hop.2).elim) fun _ _ _ h₁ => h₁).bind
        fun made m₁ hmake h₁ => ?_
      refine Ends.bind (Q := fun _ m' => m'.Tidy n loan) ?_ fun _ _ _ h₂ => .pure h₂
      unfold DemandPaging.insert
      split
      · exact addPage_tidy h₁ (KindRequest.make_core h.sound hmake).2.no_slot
      · next haligned => exact fun hop => (haligned hop.1).elim
  | claim s va => exact ((claimPage_upholds s va).mono fun _ _ => spent).bind fun _ => .pure _
  | find s va => exact ((find_upholds s va).mono fun _ _ => spent).bind fun _ => .pure _
  | pageType s va => exact (pageType_upholds s va).bind fun _ => .pure _
  | remove s va => exact Upholds.bind (fun _ h => removeRef_tidy h _) fun _ => .pure _
  | map s va length writable id offset =>
      exact fun m h => (openFile_ends h).bind fun _ m₁ _ h₁ => (map_upholds _ _ _ _ _ _ h₁).bind
        fun _ m₂ _ h₂ => (closeFile_ends h₂).bind fun _ _ _ h₃ => .pure h₃
  | unmap s va => exact (unmap_upholds s va).bind fun _ => .pure _
  | check s va length write => exact (checkUserRange_upholds _ _ _ _).bind fun _ => .pure _
  | fault s va sp flags =>
      exact ((resolveFault_upholds s va sp flags).mono fun _ _ => spent).bind fun _ => .pure _
  | read s va length sp =>
      exact ((readPieces_upholds _ _ _ _ _ _ _).mono fun _ _ => spent).bind fun _ => .pure _
  | write s va bytes sp =>
      exact ((writePieces_upholds _ _ _ _ (Nat.zero_add _)).mono fun _ _ => spent).bind fun _ => .pure _
  | fork src dst order =>
      exact ((copySpace_upholds src dst order).mono fun _ _ => spent).bind fun _ => .pure _
  | teardown s order =>
      exact (teardown_upholds s order).bind fun _ => get_upholds.bind fun _ => .pure _
  | exit s order => exact (exitSpace_upholds s order).bind fun _ => .pure _
  | size s => exact get_upholds.bind fun _ => .pure _
  | mappings s => exact get_upholds.bind fun _ => .pure _
  | setDirty s va dirty =>
      exact (setDirty_upholds _ _).bind fun _ => (isDirty_upholds _).bind fun _ => .pure _
  | dropMapping s va => exact (clearMapping_upholds _).bind fun _ => .pure _
  | setInstalls s installs =>
      exact Upholds.bind (setInstalls_upholds s installs) fun _ => .pure _
  | file id => exact get_upholds.bind fun _ => .pure _
  | configureFile id settings =>
      exact (configureFile_upholds id settings).bind fun _ => .pure _
  | duplicateBacking id offset count => exact duplicateBacking_upholds id offset count
  | stats => exact get_upholds.bind fun _ => .pure _
  | locked s va op ih =>
      refine ((find_upholds s va).mono fun _ _ => spent).bind fun found => ?_
      cases found with
      | none => exact .pure _
      | some _ => exact holding_upholds _ ih

end Operation

namespace Machine

/-- The machine `m'` is what `m` may be after any requests that were served, failed copies among them,
while others held the locks of any pages. -/
inductive Reaches (m : Machine) : Machine → Prop where
  | refl : Reaches m m
  | served {m₁ m' : Machine} {op : Operation} {a : Answer} (held : List PageRef)
      (run : Reaches m m₁) (answered : op.perform { m₁ with held } = .ok a m') : Reaches m m'

variable {m₁ : Machine}

theorem Reaches.tidy (run : m.Reaches m') (h : m.Tidy n loan) : m'.Tidy n loan := by
  induction run with
  | refl => exact h
  | @served m₁ m' op a held _ answered ih =>
      have hheld : Tidy n loan { m₁ with held } := ih.same rfl rfl
      exact (op.perform_upholds hheld).ok answered

theorem Reaches.serve {ops : List Operation} {log : List Exchange} (run : m.Reaches m₁)
    (h : m₁.serve ops = some (log, m')) : m.Reaches m' := by
  induction ops generalizing m₁ log with
  | nil =>
      cases h
      exact run
  | cons op rest ih =>
      unfold Machine.serve at h
      split at h
      · next a m₂ answered =>
          split at h
          · exact nomatch h
          · obtain ⟨⟨log', m₃⟩, hrest, heq⟩ := Option.map_eq_some_iff.1 h
            cases heq
            exact ih (.served m₁.held run answered) hrest
      · exact nomatch h

/-- The machine `m'` is what `m` may be between two requests or in the midst of one: what was done for
it so far are steps of the pager. -/
def Passes (m m' : Machine) : Prop := ∃ m₁ ds, m.Reaches m₁ ∧ Core.Steps m₁.core ds m'.core

theorem Reaches.passes (run : m.Reaches m') (held : List PageRef) : m.Passes { m' with held } :=
  ⟨m', [], run, .refl _⟩

end Machine

theorem Run.reaches {P : Machine → Operation → Prop} (run : Run P m log m') : m.Reaches m' := by
  induction run with
  | nil => exact .refl
  | turn run turn all ih =>
      cases turn with
      | served held whole answered => exact .served held ih answered
      | undone held held' failed cleared => exact .served held' (.served held ih failed) cleared

end DemandPaging
