import SmbDiscover.Causes

/-!
# Timeouts of a connection (`util_smbclient`, util_smbclient.c:297-335)

`long`, `int` and `time_t` have 32 bits on the mipsel target. The milliseconds are
computed in that type and only the sum is widened to the `long long` of `milisecDiff`.
-/

namespace SmbDiscover
open CText CJson

/-- What `clock_gettime(CLOCK_MONOTONIC)` stores. -/
structure Timespec.Normalised (t : Timespec) : Prop where
  secMin : 0 ≤ t.tvSec
  secMax : t.tvSec ≤ longMax
  nsecMin : 0 ≤ t.tvNsec
  nsecMax : t.tvNsec < 1000000000

theorem Timespec.normalised_iff (t : Timespec) : t.Normalised ↔
    0 ≤ t.tvSec ∧ t.tvSec ≤ 2147483647 ∧ 0 ≤ t.tvNsec ∧ t.tvNsec < 1000000000 :=
  ⟨fun h => ⟨h.secMin, h.secMax, h.nsecMin, h.nsecMax⟩, fun h => ⟨h.1, h.2.1, h.2.2.1, h.2.2.2⟩⟩

instance (t : Timespec) : Decidable t.Normalised := decidable_of_iff _ t.normalised_iff.symm

def Timespec.nanos (t : Timespec) : ℤ := t.tvSec * 1000000000 + t.tvNsec

def elapsedNanos (callStartTime callEndTime : Timespec) : ℤ :=
  callEndTime.nanos - callStartTime.nanos

/-- Exact results of the operations of the conversion, on the operands that are stored. -/
def diffSteps (callStartTime callEndTime : Timespec) : List ℤ :=
  let borrowed := borrow callStartTime callEndTime
  let tvSec := long32 (borrowed.tvSec - callStartTime.tvSec)
  let tvNsec := long32 (borrowed.tvNsec - callStartTime.tvNsec)
  (if callEndTime.tvNsec < callStartTime.tvNsec then
    [callEndTime.tvNsec + 1000000000, callEndTime.tvSec - 1]
  else []) ++
  [borrowed.tvSec - callStartTime.tvSec, borrowed.tvNsec - callStartTime.tvNsec, tvSec * 1000,
    tvNsec.tdiv 1000000, long32 (tvSec * 1000) + tvNsec.tdiv 1000000]

def FitsLong (x : ℤ) : Prop := longMin ≤ x ∧ x ≤ longMax

/-! ### The conversion -/

theorem fitsLong_iff (x : ℤ) : FitsLong x ↔ -2147483648 ≤ x ∧ x ≤ 2147483647 := Iff.rfl

theorem long32_of_fits (x : ℤ) (h : FitsLong x) : long32 x = x := by
  obtain ⟨hmin, hmax⟩ := (fitsLong_iff x).mp h
  exact Int.bmod_eq_of_le (by omega) (by omega)

theorem long32_fits (x : ℤ) : FitsLong (long32 x) := by
  have hmin := Int.le_bmod (x := x) (m := 4294967296) (by decide)
  have hmax := Int.bmod_le (x := x) (m := 4294967296) (by decide)
  rw [fitsLong_iff, long32]
  omega

section Conversion
variable (start finish : Timespec) (hstart : start.Normalised) (hfinish : finish.Normalised)
  (hle : start.nanos ≤ finish.nanos)
include hstart hfinish hle

theorem borrow_fits (hborrow : finish.tvNsec < start.tvNsec) :
    FitsLong (finish.tvSec - 1) ∧ FitsLong (finish.tvNsec + 1000000000) := by
  obtain ⟨hsec, -, -, hnsec⟩ := start.normalised_iff.mp hstart
  obtain ⟨-, hsecMax, hnsecMin, hnsecMax⟩ := finish.normalised_iff.mp hfinish
  unfold Timespec.nanos at hle
  rw [fitsLong_iff, fitsLong_iff]
  omega

/-- The borrow leaves the seconds and the nanoseconds of the elapsed time. -/
theorem borrow_diff :
    (borrow start finish).tvSec - start.tvSec = elapsedNanos start finish / 1000000000 ∧
      (borrow start finish).tvNsec - start.tvNsec = elapsedNanos start finish % 1000000000 := by
  have hnanos : elapsedNanos start finish =
      (finish.tvSec - start.tvSec) * 1000000000 + (finish.tvNsec - start.tvNsec) := by
    unfold elapsedNanos Timespec.nanos
    omega
  have hs := start.normalised_iff.mp hstart
  have hf := finish.normalised_iff.mp hfinish
  unfold borrow
  rw [hnanos]
  split
  next hborrow =>
    obtain ⟨hsec, hnsec⟩ := borrow_fits start finish hstart hfinish hle hborrow
    rw [long32_of_fits _ hsec, long32_of_fits _ hnsec]
    dsimp only
    omega
  next hplain =>
    omega

theorem elapsed_bounds :
    0 ≤ elapsedNanos start finish ∧ elapsedNanos start finish < 2147483648000000000 := by
  have hs := start.normalised_iff.mp hstart
  have hf := finish.normalised_iff.mp hfinish
  unfold elapsedNanos
  unfold Timespec.nanos at hle ⊢
  omega

theorem diff_stored :
    long32 ((borrow start finish).tvSec - start.tvSec) = elapsedNanos start finish / 1000000000 ∧
      long32 ((borrow start finish).tvNsec - start.tvNsec) =
        elapsedNanos start finish % 1000000000 := by
  obtain ⟨hsec, hnsec⟩ := borrow_diff start finish hstart hfinish hle
  have hbounds := elapsed_bounds start finish hstart hfinish hle
  rw [hsec, hnsec]
  refine ⟨long32_of_fits _ ?_, long32_of_fits _ ?_⟩
  · rw [fitsLong_iff]
    omega
  · rw [fitsLong_iff]
    omega

/-- What the code computes is the elapsed time in milliseconds up to a multiple of `2^32`. -/
theorem milisecDiff_wraps :
    milisecDiff start finish = long32 (elapsedNanos start finish / 1000000) := by
  obtain ⟨hsec, hnsec⟩ := diff_stored start finish hstart hfinish hle
  have hremainder : 0 ≤ elapsedNanos start finish % 1000000000 := Int.emod_nonneg _ (by decide)
  have hsum : elapsedNanos start finish / 1000000000 * 1000 +
      elapsedNanos start finish % 1000000000 / 1000000 =
        elapsedNanos start finish / 1000000 := by omega
  unfold milisecDiff
  simp only [hsec, hnsec]
  rw [Int.tdiv_eq_ediv_of_nonneg hremainder, long32, long32, Int.bmod_add_bmod, hsum, long32]

theorem milisecDiff_eq_iff :
    milisecDiff start finish = elapsedNanos start finish / 1000000 ↔
      elapsedNanos start finish < 2147483648000000 := by
  have hnonneg := (elapsed_bounds start finish hstart hfinish hle).1
  rw [milisecDiff_wraps start finish hstart hfinish hle]
  refine ⟨?_, ?_⟩
  · intro heq
    have hfits := (fitsLong_iff _).mp (long32_fits (elapsedNanos start finish / 1000000))
    omega
  · intro hshort
    refine long32_of_fits _ ((fitsLong_iff _).mpr ?_)
    omega

theorem diffSteps_fit (hshort : elapsedNanos start finish < 2147483648000000) :
    ∀ step ∈ diffSteps start finish, FitsLong step := by
  obtain ⟨hsec, hnsec⟩ := borrow_diff start finish hstart hfinish hle
  obtain ⟨hsec', hnsec'⟩ := diff_stored start finish hstart hfinish hle
  have hnonneg := (elapsed_bounds start finish hstart hfinish hle).1
  have hremainder : 0 ≤ elapsedNanos start finish % 1000000000 := Int.emod_nonneg _ (by decide)
  have hproduct : FitsLong (elapsedNanos start finish / 1000000000 * 1000) := by
    rw [fitsLong_iff]
    omega
  intro step hstep
  unfold diffSteps at hstep
  simp only [hsec', hnsec'] at hstep
  rw [hsec, hnsec, long32_of_fits _ hproduct, Int.tdiv_eq_ediv_of_nonneg hremainder] at hstep
  rcases List.mem_append.mp hstep with hborrow | hdiff
  · split at hborrow
    next hless =>
      obtain ⟨hfitSec, hfitNsec⟩ := borrow_fits start finish hstart hfinish hle hless
      simp only [List.mem_cons, List.not_mem_nil, or_false] at hborrow
      rcases hborrow with rfl | rfl
      · exact hfitNsec
      · exact hfitSec
    · cases hborrow
  · simp only [List.mem_cons, List.not_mem_nil, or_false] at hdiff
    rw [fitsLong_iff]
    rcases hdiff with rfl | rfl | rfl | rfl | rfl <;> omega

end Conversion

/-! ### The classification -/

theorem smbclientEnd_isTimeout (env : SmbclientEnv) (ctx : Context)
    (hframe : env.stackframe = true) (hcli : cliOpened env ctx = false) :
    (smbclientEnd env ctx).isTimeout = true ↔
      1000 ≤ milisecDiff env.callStartTime env.callEndTime := by
  have hopened := hcli
  rw [cliOpened, hframe, Bool.true_and] at hopened
  unfold smbclientEnd listSmbclient
  rw [connectSmbclient_cli, hcli]
  simp [connectSmbclient, hframe, hopened]

/-- A connection that fails between the two times is a timeout after a second or more. -/
def TimeoutAfterSecond (start finish : Timespec) : Prop :=
  ∀ env ctx, env.callStartTime = start → env.callEndTime = finish → env.stackframe = true →
    cliOpened env ctx = false →
    ((smbclientEnd env ctx).isTimeout = true ↔ 1000000000 ≤ elapsedNanos start finish) ∧
    ∀ child calls, env.json .fail = true →
      utilSmbclient env ctx = (some (.object child), calls) →
      (FailsWith child (.lit "timeout") ↔ 1000000000 ≤ elapsedNanos start finish)

theorem timeoutAfterSecond_of (start finish : Timespec)
    (hdiff : milisecDiff start finish = elapsedNanos start finish / 1000000) :
    TimeoutAfterSecond start finish := by
  intro env ctx hstart hfinish hframe hcli
  have hclass : (smbclientEnd env ctx).isTimeout = true ↔
      1000000000 ≤ elapsedNanos start finish := by
    rw [smbclientEnd_isTimeout env ctx hframe hcli, hstart, hfinish, hdiff]
    omega
  refine ⟨hclass, fun child calls hfail hrun => ?_⟩
  obtain ⟨rfl, -⟩ := smbclient_run env ctx child calls hrun
  rw [failsWith_iff env ctx _ hfail, fail_timeout_iff, hclass]

/-- No operation overflows, the milliseconds are those that elapsed, and the cause of a
failed connection follows from them. -/
def TimeoutExact (start finish : Timespec) : Prop :=
  (∀ step ∈ diffSteps start finish, FitsLong step) ∧
  milisecDiff start finish = elapsedNanos start finish / 1000000 ∧
  TimeoutAfterSecond start finish

/-- The conversion is exact for calls of less than `2^31` milliseconds. -/
theorem timeoutExact_iff (start finish : Timespec) (hstart : start.Normalised)
    (hfinish : finish.Normalised) (hle : start.nanos ≤ finish.nanos) :
    TimeoutExact start finish ↔ elapsedNanos start finish < 2147483648000000 := by
  have hexact := milisecDiff_eq_iff start finish hstart hfinish hle
  refine ⟨?_, ?_⟩
  · intro h
    exact hexact.mp h.2.1
  · intro hshort
    have hdiff := hexact.mpr hshort
    exact ⟨diffSteps_fit start finish hstart hfinish hle hshort, hdiff,
      timeoutAfterSecond_of start finish hdiff⟩

def longRefusal : SmbclientEnv :=
  { oneShare with cliCmOpen := fun _ _ => false, callEndTime := ⟨2147484, 0⟩ }

theorem long_refusal_blamed :
    (⟨0, 0⟩ : Timespec).Normalised ∧ (⟨2147484, 0⟩ : Timespec).Normalised ∧
    milisecDiff ⟨0, 0⟩ ⟨2147484, 0⟩ = -2147483296 ∧ ¬ TimeoutExact ⟨0, 0⟩ ⟨2147484, 0⟩ ∧
    ∃ child calls, utilSmbclient longRefusal anonymousContext = (some (.object child), calls) ∧
      FailsWith child (.lit "auth") := by
  have hdiff : milisecDiff ⟨0, 0⟩ ⟨2147484, 0⟩ = -2147483296 := by decide +kernel
  refine ⟨by decide, by decide, hdiff, ?_, _, _, rfl, ?_⟩
  · intro hexact
    have hvalue := hexact.2.1
    rw [hdiff] at hvalue
    exact absurd hvalue (by decide)
  · exact List.mem_append_right _ (List.mem_singleton.mpr rfl)

theorem borrowed_second_exact : TimeoutExact ⟨3, 900000000⟩ ⟨5, 400000000⟩ :=
  (timeoutExact_iff ⟨3, 900000000⟩ ⟨5, 400000000⟩ (by decide) (by decide) (by decide)).mpr
    (by decide)

end SmbDiscover
