import Mathlib

/-!
# Monitoring the L1 transactions of the sequence sender

`Client.monitorTxs` (`ethtxmanager/ethtxmanager.go`) goes over every
monitored transaction that is not finished.  For each one it asks L1 whether
a transaction of its history was mined (`CheckTxWasMined`, in the order the
walk over the history map gives), and from two flags gathered on the way
decides whether to re-read the sender's nonce (`ReviewMonitoredTxNonce`).  A
sent transaction none of whose history was mined successfully then gets its
gas and gas price reviewed (`ReviewMonitoredTx`).  Each review is written to
storage (`storage.Update`) and read back at the next cycle.

* `scanHistory_flags`: the flags after the walk, in terms of the hashes
  checked before the first successful receipt.
* `monitorTx_reviewsNonce_iff`: when the nonce is re-read.
* `monitorTx_stored_mono`: what one cycle writes never lowers the nonce or
  the gas, nor the gas price while the prices stay below `2^64`.

A hash whose check fails is skipped without clearing `allHistoryTxMined`, and
the walk stops at a successful receipt after a failed one has set
`hasFailedReceipts`: either way the nonce is re-read although not every hash
was seen mined with a failed receipt.  The storage keeps the gas price as
`gasPrice.Uint64()`, its low 64 bits.
-/

namespace CdkValidium

namespace EthTxManager

inductive MonitoredTxStatus
  | created
  | sent
  | failed
  | confirmed
  | reorged
  deriving DecidableEq, Repr

/-- The status of a receipt: `ReceiptStatusFailed` or `ReceiptStatusSuccessful`. -/
inductive ReceiptStatus
  | failed
  | successful
  deriving DecidableEq, Repr

/-- What `CheckTxWasMined` reports for one hash: not found on L1, mined with a
receipt of that status, or an error. -/
inductive CheckResult
  | notMined
  | mined (status : ReceiptStatus)
  | error (err : String)
  deriving DecidableEq, Repr

/-- The locals of the history walk. -/
structure HistoryScan where
  mined : Bool
  hasFailedReceipts : Bool
  allHistoryTxMined : Bool
  deriving DecidableEq, Repr

def HistoryScan.init : HistoryScan := ⟨false, false, true⟩

/-- The walk over `mTx.history`, one check result per hash in the walk's
order: `continue` after an error or a hash not mined yet, `break` at a
successful receipt.  `CheckTxWasMined` returns `false` with its error. -/
def scanHistory (scan : HistoryScan) : List CheckResult → HistoryScan
  | [] => scan
  | .error _ :: rest => scanHistory { scan with mined := false } rest
  | .notMined :: rest => scanHistory { scan with mined := false, allHistoryTxMined := false } rest
  | .mined .successful :: _ => { scan with mined := true }
  | .mined .failed :: rest => scanHistory { scan with mined := false, hasFailedReceipts := true } rest

/-- The fields of `monitoredTx` the reviews read and write; `gasPrice` is a
`*big.Int`, never negative here. -/
structure MonitoredTx where
  nonce : UInt64
  gas : UInt64
  gasPrice : Nat
  status : MonitoredTxStatus
  deriving DecidableEq, Repr

/-- `ReviewMonitoredTx`: raise the gas to the estimate and the gas price to the
suggested one, where they are higher. -/
def reviewMonitoredTx (estimateGas : Except String UInt64) (suggestedGasPrice : Except String Nat)
    (mTx : MonitoredTx) : Except String MonitoredTx := do
  let gas ← estimateGas.mapError fun err => "failed to estimate gas: " ++ err
  let mTx := if gas > mTx.gas then { mTx with gas := gas } else mTx
  let gasPrice ← suggestedGasPrice.mapError fun err => "failed to get suggested gas price: " ++ err
  pure (if gasPrice > mTx.gasPrice then { mTx with gasPrice := gasPrice } else mTx)

/-- `ReviewMonitoredTxNonce`: raise the nonce to the sender's current one, where
it is higher.  The error text is the source's. -/
def reviewMonitoredTxNonce (currentNonce : Except String UInt64) (mTx : MonitoredTx) :
    Except String MonitoredTx := do
  let nonce ← currentNonce.mapError fun err => "failed to estimate gas: " ++ err
  pure (if nonce > mTx.nonce then { mTx with nonce := nonce } else mTx)

/-- The row `storage.Update` writes and the next `GetByStatus` reads back:
`gas_price` holds `gasPrice.Uint64()`, the low 64 bits. -/
def MonitoredTx.stored (mTx : MonitoredTx) : MonitoredTx := { mTx with gasPrice := mTx.gasPrice % 2 ^ 64 }

/-- What L1 and storage answer during one cycle for one monitored transaction. -/
structure MonitorEnv where
  checks : List CheckResult
  currentNonce : Except String UInt64
  estimateGas : Except String UInt64
  suggestedGasPrice : Except String Nat
  updateNonce : Except String Unit
  updateReview : Except String Unit

/-- The review of gas and gas price of a sent transaction not mined
successfully, with its `storage.Update`; `none` when it is not made or fails. -/
def reviewSent (env : MonitorEnv) (scan : HistoryScan) (mTx : MonitoredTx) : Option MonitoredTx :=
  if !scan.mined && mTx.status == .sent then
    match reviewMonitoredTx env.estimateGas env.suggestedGasPrice mTx, env.updateReview with
    | .ok mTx', .ok () => some mTx'
    | _, _ => none
  else none

/-- What one cycle of `monitorTxs` does to `mTx` up to its reviews: whether it
re-read the nonce, and the row in storage afterwards.  The later updates of the
cycle (new history, status) write the same nonce, gas and gas price. -/
def monitorTx (env : MonitorEnv) (mTx : MonitoredTx) : Bool × MonitoredTx :=
  let scan := scanHistory .init env.checks
  if scan.hasFailedReceipts && scan.allHistoryTxMined then
    match reviewMonitoredTxNonce env.currentNonce mTx, env.updateNonce with
    | .ok mTx', .ok () => (true, ((reviewSent env scan mTx').getD mTx').stored)
    | _, _ => (true, mTx)
  else (false, ((reviewSent env scan mTx).map MonitoredTx.stored).getD mTx)

/-! ### When the nonce is re-read -/

/-- The check results the walk reads: those before the first successful
receipt. -/
def beforeSuccess (checks : List CheckResult) : List CheckResult :=
  checks.takeWhile (· != .mined .successful)

@[simp] theorem beforeSuccess_nil : beforeSuccess [] = [] := rfl

theorem beforeSuccess_cons_of_ne {c : CheckResult} (hc : c ≠ .mined .successful) (checks : List CheckResult) :
    beforeSuccess (c :: checks) = c :: beforeSuccess checks := by
  simp [beforeSuccess, hc]

@[simp] theorem beforeSuccess_cons_successful (checks : List CheckResult) :
    beforeSuccess (.mined .successful :: checks) = [] := by
  simp [beforeSuccess]

theorem scanHistory_flags (scan : HistoryScan) (checks : List CheckResult) :
    (scanHistory scan checks).hasFailedReceipts =
        (scan.hasFailedReceipts || decide (.mined .failed ∈ beforeSuccess checks)) ∧
      (scanHistory scan checks).allHistoryTxMined =
        (scan.allHistoryTxMined && decide (.notMined ∉ beforeSuccess checks)) := by
  induction checks generalizing scan with
  | nil => simp [scanHistory]
  | cons c checks ih =>
    cases c with
    | notMined =>
      rw [beforeSuccess_cons_of_ne (by simp)]
      simp [scanHistory, ih]
    | mined status =>
      cases status with
      | failed =>
        rw [beforeSuccess_cons_of_ne (by simp)]
        simp [scanHistory, ih]
      | successful => simp [scanHistory]
    | error err =>
      rw [beforeSuccess_cons_of_ne (by simp)]
      simp [scanHistory, ih]

theorem scanHistory_mined (checks : List CheckResult) :
    (scanHistory .init checks).mined = decide (.mined .successful ∈ checks) := by
  suffices h : ∀ scan, scan.mined = false → (scanHistory scan checks).mined = decide (.mined .successful ∈ checks) from
    h _ rfl
  induction checks with
  | nil => simp [scanHistory]
  | cons c checks ih =>
    intro scan _
    cases c with
    | notMined => simpa [scanHistory] using ih _ rfl
    | mined status =>
      cases status with
      | failed => simpa [scanHistory] using ih _ rfl
      | successful => simp [scanHistory]
    | error err => simpa [scanHistory] using ih _ rfl

/-- **When the nonce is re-read.**  For every order of the history and every
result of its checks, `monitorTxs` calls `ReviewMonitoredTxNonce` exactly when
the hashes checked before the first successful receipt include one mined with
a failed receipt and none that is not mined yet: hashes whose check failed
count for nothing, and the hashes after a successful receipt are never
checked. -/
theorem monitorTx_reviewsNonce_iff (env : MonitorEnv) (mTx : MonitoredTx) :
    (monitorTx env mTx).1 = true ↔
      .mined .failed ∈ beforeSuccess env.checks ∧ .notMined ∉ beforeSuccess env.checks := by
  have hcond : ((scanHistory .init env.checks).hasFailedReceipts &&
      (scanHistory .init env.checks).allHistoryTxMined) = true ↔
      .mined .failed ∈ beforeSuccess env.checks ∧ .notMined ∉ beforeSuccess env.checks := by
    obtain ⟨hfailed, hall⟩ := scanHistory_flags .init env.checks
    rw [hfailed, hall]
    simp [HistoryScan.init]
  rw [← hcond]
  simp only [monitorTx]
  split
  case isTrue h =>
    split <;> simp [h]
  case isFalse h => simp [h]

/-- A hash whose check failed, then a hash mined with a failed receipt: the
nonce is re-read although the first hash was never seen mined. -/
theorem monitorTx_reviewsNonce_error_then_failed :
    (monitorTx ⟨[.error "timeout", .mined .failed], .ok 7, .ok 21000, .ok 10, .ok (), .ok ()⟩
        ⟨3, 21000, 10, .sent⟩).1 = true ∧
      CheckResult.error "timeout" ∈ [CheckResult.error "timeout", .mined .failed] :=
  ⟨(monitorTx_reviewsNonce_iff _ _).mpr ⟨by decide, by decide⟩, by simp⟩

/-! ### Nonce, gas and gas price across cycles -/

/-- `mTx'` has a nonce, gas and gas price at least `mTx`'s. -/
structure Raises (mTx mTx' : MonitoredTx) : Prop where
  nonce : mTx.nonce ≤ mTx'.nonce
  gas : mTx.gas ≤ mTx'.gas
  gasPrice : mTx.gasPrice ≤ mTx'.gasPrice

theorem Raises.refl (mTx : MonitoredTx) : Raises mTx mTx := ⟨UInt64.le_refl _, UInt64.le_refl _, le_rfl⟩

theorem Raises.trans {a b c : MonitoredTx} (hab : Raises a b) (hbc : Raises b c) : Raises a c :=
  ⟨UInt64.le_trans hab.nonce hbc.nonce, UInt64.le_trans hab.gas hbc.gas, hab.gasPrice.trans hbc.gasPrice⟩

/-- `ReviewMonitoredTx` keeps the nonce and the status, does not lower the
gas, and sets the gas price to the larger of the old and the suggested one. -/
theorem reviewMonitoredTx_spec {estimateGas : Except String UInt64} {suggestedGasPrice : Except String Nat}
    {mTx mTx' : MonitoredTx} (h : reviewMonitoredTx estimateGas suggestedGasPrice mTx = .ok mTx') :
    mTx'.nonce = mTx.nonce ∧ mTx'.status = mTx.status ∧ mTx.gas ≤ mTx'.gas ∧
      ∃ gasPrice, suggestedGasPrice = .ok gasPrice ∧ mTx'.gasPrice = max mTx.gasPrice gasPrice := by
  cases estimateGas with
  | error err => cases h
  | ok gas =>
    cases suggestedGasPrice with
    | error err => cases h
    | ok gasPrice =>
      simp only [reviewMonitoredTx, Except.mapError, bind, Except.bind, pure, Except.pure,
        Except.ok.injEq] at h
      subst h
      split_ifs with hg hp hp <;> refine ⟨rfl, rfl, ?_, gasPrice, rfl, ?_⟩ <;> simp only [gt_iff_lt] at hg hp
      · exact UInt64.le_of_lt hg
      · exact (max_eq_right (le_of_lt hp)).symm
      · exact UInt64.le_of_lt hg
      · exact (max_eq_left (not_lt.mp hp)).symm
      · exact UInt64.le_refl _
      · exact (max_eq_right (le_of_lt hp)).symm
      · exact UInt64.le_refl _
      · exact (max_eq_left (not_lt.mp hp)).symm

theorem reviewMonitoredTxNonce_spec {currentNonce : Except String UInt64} {mTx mTx' : MonitoredTx}
    (h : reviewMonitoredTxNonce currentNonce mTx = .ok mTx') :
    mTx.nonce ≤ mTx'.nonce ∧ mTx'.gas = mTx.gas ∧ mTx'.gasPrice = mTx.gasPrice ∧ mTx'.status = mTx.status := by
  cases currentNonce with
  | error err => cases h
  | ok nonce =>
    simp only [reviewMonitoredTxNonce, Except.mapError, bind, Except.bind, pure, Except.pure,
      Except.ok.injEq] at h
    subst h
    by_cases hn : nonce > mTx.nonce
    · rw [if_pos hn]
      exact ⟨UInt64.le_of_lt hn, rfl, rfl, rfl⟩
    · rw [if_neg hn]
      exact ⟨UInt64.le_refl _, rfl, rfl, rfl⟩

theorem MonitoredTx.stored_of_lt {mTx : MonitoredTx} (h : mTx.gasPrice < 2 ^ 64) : mTx.stored = mTx := by
  rw [MonitoredTx.stored, Nat.mod_eq_of_lt h]

theorem reviewSent_raises {env : MonitorEnv} {scan : HistoryScan} {mTx mTx' : MonitoredTx}
    (h : reviewSent env scan mTx = some mTx') (hprice : mTx.gasPrice < 2 ^ 64)
    (hsuggested : ∀ p, env.suggestedGasPrice = .ok p → p < 2 ^ 64) :
    Raises mTx mTx' ∧ mTx'.gasPrice < 2 ^ 64 := by
  unfold reviewSent at h
  split at h
  · split at h
    case _ mTx'' hreview _ =>
      cases h
      obtain ⟨hnonce, -, hgas, gasPrice, hsug, hgp⟩ := reviewMonitoredTx_spec hreview
      have := hsuggested gasPrice hsug
      exact ⟨⟨hnonce.symm ▸ UInt64.le_refl _, hgas, by omega⟩, by omega⟩
    · cases h
  · cases h

/-- **One cycle.**  The row a cycle leaves has a nonce and gas at least the
ones it read; so has its gas price, when the gas price read and the one
suggested are below `2^64`. -/
theorem monitorTx_stored_mono (env : MonitorEnv) (mTx : MonitoredTx) (hprice : mTx.gasPrice < 2 ^ 64)
    (hsuggested : ∀ p, env.suggestedGasPrice = .ok p → p < 2 ^ 64) :
    Raises mTx (monitorTx env mTx).2 ∧ (monitorTx env mTx).2.gasPrice < 2 ^ 64 := by
  simp only [monitorTx]
  split
  · split
    case _ mTx₁ hnonce _ =>
      obtain ⟨hn, hg, hgp, -⟩ := reviewMonitoredTxNonce_spec hnonce
      have h₁ : Raises mTx mTx₁ := ⟨hn, hg ▸ UInt64.le_refl _, hgp ▸ le_rfl⟩
      cases hsent : reviewSent env (scanHistory .init env.checks) mTx₁ with
      | none =>
        rw [Option.getD_none, MonitoredTx.stored_of_lt (by omega)]
        exact ⟨h₁, by rw [hgp]; exact hprice⟩
      | some mTx₂ =>
        obtain ⟨h₂, hlt⟩ := reviewSent_raises hsent (by omega) hsuggested
        rw [Option.getD_some, MonitoredTx.stored_of_lt hlt]
        exact ⟨h₁.trans h₂, hlt⟩
    · exact ⟨Raises.refl mTx, hprice⟩
  · cases hsent : reviewSent env (scanHistory .init env.checks) mTx with
    | none => exact ⟨Raises.refl mTx, hprice⟩
    | some mTx₂ =>
      obtain ⟨h₂, hlt⟩ := reviewSent_raises hsent hprice hsuggested
      simp only [Option.map_some, Option.getD_some, MonitoredTx.stored_of_lt hlt]
      exact ⟨h₂, hlt⟩

/-- Cycles one after another: each reads back the row the previous one left,
with the status the rest of that cycle wrote. -/
def monitorRun (mTx : MonitoredTx) : List (MonitorEnv × MonitoredTxStatus) → MonitoredTx
  | [] => mTx
  | (env, status) :: cycles => monitorRun { (monitorTx env mTx).2 with status := status } cycles

/-- **Across cycles.**  With gas prices below `2^64`, no run of monitoring
cycles lowers the stored nonce, gas or gas price. -/
theorem monitorRun_raises (cycles : List (MonitorEnv × MonitoredTxStatus)) :
    ∀ mTx : MonitoredTx, mTx.gasPrice < 2 ^ 64 →
      (∀ c ∈ cycles, ∀ p, c.1.suggestedGasPrice = .ok p → p < 2 ^ 64) →
      Raises mTx (monitorRun mTx cycles) := by
  induction cycles with
  | nil => exact fun mTx _ _ => Raises.refl mTx
  | cons c cycles ih =>
    intro mTx hprice hsuggested
    obtain ⟨env, status⟩ := c
    obtain ⟨h₁, hlt⟩ := monitorTx_stored_mono env mTx hprice (hsuggested _ List.mem_cons_self)
    have h₂ : Raises mTx { (monitorTx env mTx).2 with status := status } := ⟨h₁.nonce, h₁.gas, h₁.gasPrice⟩
    exact h₂.trans (ih _ hlt fun c hc => hsuggested c (List.mem_cons_of_mem _ hc))

/-- A suggested gas price of `2^64 + 5` over a stored one of `10`: storage
keeps its low 64 bits, and the next cycle reads a gas price of `5`. -/
theorem monitorTx_gasPrice_wraps :
    monitorTx ⟨[.notMined], .ok 0, .ok 21000, .ok (2 ^ 64 + 5), .ok (), .ok ()⟩ ⟨0, 21000, 10, .sent⟩ =
      (false, ⟨0, 21000, 5, .sent⟩) := by
  decide

end EthTxManager

end CdkValidium
