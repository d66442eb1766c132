import CdkValidium.Rlp.Basic

/-!
# Legacy transactions

The batch L2 data of a validium batch carries legacy (pre-typed) transactions.
This file gives the transaction record the codec of `state/helper.go` reads and
builds, what the codec takes from go-ethereum, and `RlpFieldsToLegacyTx` of
`state/transaction.go`, which turns the RLP fields and the separately stored
`r`, `s`, `v` bytes back into a transaction.

go-ethereum is not part of the repository.  What the codec calls of it is a
parameter, `EthLib`: `rlp.EncodeToBytes` on the list of fields, `rlp.DecodeBytes`
into `[][]byte`, and the chain id that `Transaction.ChainId()` derives from `V`.
`common.BytesToAddress` is given by its documented behaviour: the last 20 bytes,
padded on the left with zeros.
-/

namespace CdkValidium.State

/-- A 20-byte account address (`common.Address`). -/
structure Address where
  bytes : List UInt8
  length_eq : bytes.length = 20
  deriving DecidableEq

/-- `common.BytesToAddress`: the last 20 bytes of `b`, padded on the left with
zeros when `b` is shorter. -/
def bytesToAddress (b : List UInt8) : Address :=
  ⟨List.replicate (20 - b.length) 0 ++ b.drop (b.length - 20), by simp; omega⟩

theorem bytesToAddress_bytes (a : Address) : bytesToAddress a.bytes = a := by
  obtain ⟨b, hb⟩ := a
  simp [bytesToAddress, hb]

/-- A legacy transaction (`types.LegacyTx`; `toAddress` is its `To`).  The `*big.Int` fields are
non-negative here: the codec only ever builds them with `SetBytes`. -/
structure LegacyTx where
  nonce : UInt64
  gasPrice : Nat
  gas : UInt64
  toAddress : Option Address
  value : Nat
  data : List UInt8
  v : Nat
  r : Nat
  s : Nat
  deriving DecidableEq

/-- The Go values `prepareRPLTxData` passes to `rlp.EncodeToBytes`: unsigned
integers (`uint64`, `uint` and `*big.Int`), the `*common.Address` recipient
(`nil` for a contract creation) and the `[]byte` call data. -/
inductive RlpField
  | uint (n : Nat)
  | address (a : Option Address)
  | bytes (b : List UInt8)

/-- What the batch codec calls of go-ethereum. -/
structure EthLib where
  /-- `rlp.EncodeToBytes` of a `[]interface{}` of fields. -/
  encodeToBytes : List RlpField → Except String (List UInt8)
  /-- `rlp.DecodeBytes(b, &rlpFields)` with `rlpFields [][]byte`. -/
  decodeBytes : List UInt8 → Except String (List (List UInt8))
  /-- `Transaction.ChainId()` of a legacy transaction, from its `V`. -/
  deriveChainId : Nat → Nat

/-- The RLP item go-ethereum writes for each kind of field: a number as its
big-endian bytes, a `nil` address as the empty string. -/
def RlpField.encode : RlpField → List UInt8
  | .uint n => Rlp.encodeString (Rlp.beBytes n)
  | .address none => Rlp.encodeString []
  | .address (some a) => Rlp.encodeString a.bytes
  | .bytes b => Rlp.encodeString b

/-- `deriveChainId` of go-ethereum: on a `V` of at most 64 bits, `0` for `27`
and `28`, else `(V - 35) / 2` in `uint64` arithmetic; on a longer `V`,
`(V - 35) / 2` in `big.Int`. -/
def gethDeriveChainId (v : Nat) : Nat :=
  if v < 2 ^ 64 then
    if v = 27 ∨ v = 28 then 0 else ((v + 2 ^ 64 - 35) % 2 ^ 64) / 2
  else (v - 35) / 2

/-- An `EthLib` that does what go-ethereum does on canonical input: the RLP of
`Rlp`, and `deriveChainId`. -/
def gethLib : EthLib where
  encodeToBytes fields := .ok (Rlp.encodeList (fields.map RlpField.encode))
  decodeBytes b := (Rlp.decodeStringList b).mapError fun e => reprStr e
  deriveChainId := gethDeriveChainId

/-- The error of `RlpFieldsToLegacyTx`. -/
inductive TxError
  | txTypeNotSupported
  deriving DecidableEq, Repr

/-- `RlpFieldsToLegacyTx`: nonce, gas price, gas, recipient, value and data from
the first six fields; with a seventh field (the chain id) `V` is moved from the
`27/28` the batch stores to the EIP-155 value `v - 27 + chainId * 2 + 35`. -/
def rlpFieldsToLegacyTx (fields : List (List UInt8)) (v r s : List UInt8) :
    Except TxError LegacyTx :=
  match fields with
  | f0 :: f1 :: f2 :: f3 :: f4 :: f5 :: rest =>
    let txV : Int :=
      match rest with
      | [] => Go.setBytes v
      | f6 :: _ => ((Go.setBytes v : Int) - 27) + ((Go.setBytes f6 : Int) * 2 + 35)
    .ok { nonce := UInt64.ofNat (Go.setBytes f0)
          gasPrice := Go.setBytes f1
          gas := UInt64.ofNat (Go.setBytes f2)
          toAddress := if f3 ≠ [] then some (bytesToAddress f3) else none
          value := Go.setBytes f4
          data := f5
          v := txV.toNat
          r := Go.setBytes r
          s := Go.setBytes s }
  | _ => .error .txTypeNotSupported

end CdkValidium.State
