import CdkValidium.State.Transaction

/-!
# Signatures of the data availability committee

`sequencesender/datacommittee.go`: before it sends a sequence to L1, the
sequence sender asks every committee member, each in its own goroutine, to
sign it.  A goroutine checks that the signature recovers to the member's
address and sends one message to a channel with room for all of them.  The
collector reads messages until it has `RequiredSignatures` good ones, or
until so many have failed that the rest cannot make up the number; then it
returns the good signatures sorted by signer address, followed by the
addresses of all members.

The goroutines are scheduled in any order: the messages arrive as any
permutation of the members' outcomes (`getSignaturesAndAddrs_spec`).  Reading
the channel once every goroutine has sent blocks forever (`Collection.blocked`);
with `RequiredSignatures ≤ n` it never comes to that.
-/

namespace CdkValidium.SequenceSender

open State

/-- A member of `DataCommittee`; its URL only serves to reach it. -/
structure DataCommitteeMember where
  addr : Address
  deriving DecidableEq

/-- `etherman.DataCommittee`. -/
structure DataCommittee where
  members : List DataCommitteeMember
  requiredSignatures : Nat

/-- Why a member's message carries an error: the RPC failed, the signature
recovers to no address, or (`invalid signer. Expected %s, actual %s`) to
another address than the member's. -/
inductive SignatureError
  | signSequence (e : String)
  | signer (e : String)
  | invalidSigner (expected actual : Address)
  deriving DecidableEq

structure SignatureMsg where
  addr : Address
  signature : List UInt8
  err : Option SignatureError
  deriving DecidableEq

/-- `requestSignatureFromMember`: the member's answer to `SignSequence` and
`signer`, the address the signed sequence recovers to with a given signature. -/
def requestSignatureFromMember (member : DataCommitteeMember) (signSequence : Except String (List UInt8))
    (signer : List UInt8 → Except String Address) : SignatureMsg :=
  match signSequence with
  | .error e => ⟨member.addr, [], some (.signSequence e)⟩
  | .ok signature =>
    match signer signature with
    | .error e => ⟨member.addr, [], some (.signer e)⟩
    | .ok s =>
      if s ≠ member.addr then ⟨member.addr, [], some (.invalidSigner member.addr s)⟩
      else ⟨member.addr, signature, none⟩

/-- The message every member's goroutine sends, in committee order; member
`i` answers `signSequence i`. -/
def outcomes (committee : DataCommittee) (signSequence : Nat → Except String (List UInt8))
    (signer : List UInt8 → Except String Address) : List SignatureMsg :=
  committee.members.mapIdx fun i member => requestSignatureFromMember member (signSequence i) signer

inductive Collection
  | collected (msgs : List SignatureMsg)
  | tooManyFailed
  /-- `<-ch` with every goroutine's message already read. -/
  | blocked

/-- The collecting loop of `getSignaturesAndAddrsFromDataCommittee` over the
messages still to arrive, with the messages read so far (failed ones
included) and the two counters. -/
def collectSignatures (members requiredSignatures : Nat) (msgs : List SignatureMsg)
    (collectedSignatures failedToCollect : Nat) : List SignatureMsg → Collection
  | [] => if collectedSignatures < requiredSignatures then .blocked else .collected msgs
  | msg :: rest =>
    if collectedSignatures < requiredSignatures then
      match msg.err with
      | some _ =>
        if (members : Int) - (failedToCollect + 1 : Nat) < requiredSignatures then .tooManyFailed
        else collectSignatures members requiredSignatures (msgs ++ [msg]) collectedSignatures
          (failedToCollect + 1) rest
      | none =>
        collectSignatures members requiredSignatures (msgs ++ [msg]) (collectedSignatures + 1)
          failedToCollect rest
    else .collected msgs

/-- The text `signatureMsgs.Less` compares: `strings.ToUpper(addr.Hex())`.
`Hex()` differs from the lowercase hex only in the case of its letters, which
`ToUpper` erases. -/
def hexKey (addr : Address) : String :=
  String.toUpper (String.ofList ('0' :: 'x' :: Go.hexEncodeToString addr.bytes))

/-- `signatureMsgs`' order, as the comparison `sort.Sort` leaves between
neighbours: `!Less(j, i)`. -/
def sortLe (a b : SignatureMsg) : Bool := decide (hexKey a.addr ≤ hexKey b.addr)

/-- `buildSignaturesAndAddrs`: the signatures of the messages sorted by
signer (a failed message has none), then every member's address.
`sort.Sort` is modelled by `List.mergeSort`; what is proved of it is that it
sorts a permutation. -/
def buildSignaturesAndAddrs (msgs : List SignatureMsg) (members : List DataCommitteeMember) : List UInt8 :=
  (msgs.mergeSort sortLe).flatMap SignatureMsg.signature ++ members.flatMap fun member => member.addr.bytes

/-- The collection and the result of `getSignaturesAndAddrsFromDataCommittee`
for the messages in the order they `arrivals`; `none` when it blocks. -/
def getSignaturesAndAddrsFromDataCommittee (committee : DataCommittee) (arrivals : List SignatureMsg) :
    Option (Except String (List UInt8)) :=
  match collectSignatures committee.members.length committee.requiredSignatures [] 0 0 arrivals with
  | .blocked => none
  | .tooManyFailed => some (.error "too many members failed to send their signature")
  | .collected msgs => some (.ok (buildSignaturesAndAddrs msgs committee.members))

/-! ### The members' messages -/

def SignatureMsg.good (m : SignatureMsg) : Bool := m.err.isNone

/-- Every member's message carries its address; a good one has a signature
that recovers to it, and a failed one no signature. -/
theorem requestSignatureFromMember_spec (member : DataCommitteeMember)
    (signSequence : Except String (List UInt8)) (signer : List UInt8 → Except String Address) :
    let msg := requestSignatureFromMember member signSequence signer
    msg.addr = member.addr ∧ (msg.good = true → signer msg.signature = .ok msg.addr) ∧
      (msg.good = false → msg.signature = []) := by
  unfold requestSignatureFromMember
  split
  · exact ⟨rfl, fun h => absurd h (by simp [SignatureMsg.good]), fun _ => rfl⟩
  · rename_i signature
    split
    · exact ⟨rfl, fun h => absurd h (by simp [SignatureMsg.good]), fun _ => rfl⟩
    · rename_i addr hsigner
      split
      · exact ⟨rfl, fun h => absurd h (by simp [SignatureMsg.good]), fun _ => rfl⟩
      · rename_i heq
        refine ⟨rfl, fun _ => ?_, fun h => absurd h (by simp [SignatureMsg.good])⟩
        rw [hsigner, not_not.mp heq]

theorem mem_outcomes {committee : DataCommittee} {signSequence : Nat → Except String (List UInt8)}
    {signer : List UInt8 → Except String Address} {msg : SignatureMsg}
    (h : msg ∈ outcomes committee signSequence signer) :
    ∃ i, ∃ member ∈ committee.members, msg = requestSignatureFromMember member (signSequence i) signer := by
  obtain ⟨i, hi, rfl⟩ := List.mem_mapIdx.mp h
  exact ⟨i, _, List.getElem_mem hi, rfl⟩

theorem flatMap_signature_filter_good :
    ∀ msgs : List SignatureMsg, (∀ m ∈ msgs, m.good = false → m.signature = []) →
      msgs.flatMap SignatureMsg.signature = (msgs.filter SignatureMsg.good).flatMap SignatureMsg.signature := by
  intro msgs
  induction msgs with
  | nil => exact fun _ => rfl
  | cons m rest ih =>
    intro hfail
    have hrest := ih fun m' hm' => hfail m' (List.mem_cons_of_mem _ hm')
    cases hm : m.good
    · rw [List.flatMap_cons, hfail m List.mem_cons_self hm, List.filter_cons_of_neg (by simp [hm]),
        List.nil_append, hrest]
    · rw [List.flatMap_cons, List.filter_cons_of_pos hm, List.flatMap_cons, hrest]

theorem sortLe_trans (a b c : SignatureMsg) (hab : sortLe a b = true) (hbc : sortLe b c = true) :
    sortLe a c = true := by
  simp only [sortLe, decide_eq_true_eq] at *
  exact le_trans hab hbc

theorem sortLe_total (a b : SignatureMsg) : (sortLe a b || sortLe b a) = true := by
  simp only [sortLe, Bool.or_eq_true, decide_eq_true_eq]
  exact le_total _ _

/-! ### The collecting loop -/

theorem collectSpec_cons {k : Nat} {msgs rest : List SignatureMsg} {msg : SignatureMsg} {r : Collection}
    {P Q : Prop} [Decidable P] [Decidable Q] (hPQ : P ↔ Q)
    (h : if P then ∃ pre, pre <+: rest ∧ r = .collected (msgs ++ [msg] ++ pre) ∧
        (msgs ++ [msg] ++ pre).countP SignatureMsg.good = k
      else r = .tooManyFailed) :
    if Q then ∃ pre, pre <+: msg :: rest ∧ r = .collected (msgs ++ pre) ∧
        (msgs ++ pre).countP SignatureMsg.good = k
      else r = .tooManyFailed := by
  by_cases hP : P
  · rw [if_pos hP] at h
    rw [if_pos (hPQ.mp hP)]
    obtain ⟨pre, hpre, hres, hk⟩ := h
    exact ⟨msg :: pre, List.cons_prefix_cons.mpr ⟨rfl, hpre⟩, by simpa using hres, by simpa using hk⟩
  · rw [if_neg hP] at h
    rwa [if_neg (mt hPQ.mpr hP)]

/-- The collecting loop, from `c` good and `f` failed messages read, with
`n` messages in all: if the good ones read and to come make up
`RequiredSignatures`, it stops on reading the last one needed, with the
messages read; otherwise so many fail that it gives up.  It never blocks. -/
theorem collectSignatures_spec {n k : Nat} :
    ∀ (arrivals msgs : List SignatureMsg) (c f : Nat), arrivals.length + c + f = n → f + k ≤ n → c ≤ k →
      msgs.countP SignatureMsg.good = c →
      if k ≤ c + arrivals.countP SignatureMsg.good then
        ∃ pre, pre <+: arrivals ∧ collectSignatures n k msgs c f arrivals = .collected (msgs ++ pre) ∧
          (msgs ++ pre).countP SignatureMsg.good = k
      else collectSignatures n k msgs c f arrivals = .tooManyFailed := by
  intro arrivals
  induction arrivals with
  | nil =>
    intro msgs c f hlen hf hc hmsgs
    have hck : c = k := by simp at hlen; omega
    rw [if_pos (by simp; omega)]
    exact ⟨[], List.nil_prefix, by simp [collectSignatures, hck], by simp [hmsgs, hck]⟩
  | cons msg rest ih =>
    intro msgs c f hlen hf hc hmsgs
    simp only [List.length_cons] at hlen
    by_cases hdone : c < k
    · cases hgood : msg.good with
      | false =>
        -- a failure: give up, or go on with one more failure
        have herr : msg.err.isSome := by simpa [SignatureMsg.good] using hgood
        obtain ⟨e, he⟩ := Option.isSome_iff_exists.mp herr
        have hcount : (msg :: rest).countP SignatureMsg.good = rest.countP SignatureMsg.good := by
          simp [hgood]
        rw [hcount]
        by_cases hgive : (n : Int) - (f + 1 : Nat) < k
        · have hrest : rest.countP SignatureMsg.good ≤ rest.length := List.countP_le_length
          rw [if_neg (by omega)]
          simp only [collectSignatures, if_pos hdone, he, if_pos hgive]
        · have hstep := ih (msgs ++ [msg]) c (f + 1) (by omega) (by omega) hc (by simp [hmsgs, hgood])
          have hcol : collectSignatures n k msgs c f (msg :: rest) =
              collectSignatures n k (msgs ++ [msg]) c (f + 1) rest := by
            simp only [collectSignatures, if_pos hdone, he, if_neg hgive]
          rw [hcol]
          exact collectSpec_cons Iff.rfl hstep
      | true =>
        have herr : msg.err = none := by simpa [SignatureMsg.good] using hgood
        have hcount : (msg :: rest).countP SignatureMsg.good = rest.countP SignatureMsg.good + 1 := by
          simp [hgood]
        rw [hcount]
        have hstep := ih (msgs ++ [msg]) (c + 1) f (by omega) hf (by omega) (by simp [hmsgs, hgood])
        have hcol : collectSignatures n k msgs c f (msg :: rest) =
            collectSignatures n k (msgs ++ [msg]) (c + 1) f rest := by
          simp only [collectSignatures, if_pos hdone, herr]
        rw [hcol]
        exact collectSpec_cons (by omega) hstep
    · -- enough signatures already
      have hck : c = k := by omega
      rw [if_pos (by omega)]
      exact ⟨[], List.nil_prefix, by simp [collectSignatures, hdone], by simp [hmsgs, hck]⟩

/-! ### The collection -/

theorem getSignaturesAndAddrs_spec (committee : DataCommittee)
    (signSequence : Nat → Except String (List UInt8)) (signer : List UInt8 → Except String Address)
    (arrivals : List SignatureMsg) (hk : committee.requiredSignatures ≤ committee.members.length)
    (harr : arrivals.Perm (outcomes committee signSequence signer)) :
    ∃ r, getSignaturesAndAddrsFromDataCommittee committee arrivals = some r ∧
      ((∃ e, r = .error e) ↔ committee.members.length - committee.requiredSignatures <
        (outcomes committee signSequence signer).countP fun m => !m.good) ∧
      ∀ bytes, r = .ok bytes → ∃ sigs : List SignatureMsg,
        sigs.length = committee.requiredSignatures ∧
        sigs.Subperm (outcomes committee signSequence signer) ∧
        (∀ m ∈ sigs, signer m.signature = .ok m.addr) ∧
        sigs.Pairwise (fun a b => hexKey a.addr ≤ hexKey b.addr) ∧
        bytes = sigs.flatMap SignatureMsg.signature ++ committee.members.flatMap fun member => member.addr.bytes := by
  set O := outcomes committee signSequence signer
  have hlenO : O.length = committee.members.length := by simp [O, outcomes]
  have hlen : arrivals.length = committee.members.length := harr.length_eq.trans hlenO
  -- the good and the failed messages make up all `n`
  have hsplit : O.countP SignatureMsg.good + O.countP (fun m => !m.good) = committee.members.length := by
    rw [← hlenO, List.length_eq_countP_add_countP SignatureMsg.good (l := O)]
    simp
  have hgood : arrivals.countP SignatureMsg.good = O.countP SignatureMsg.good := harr.countP_eq _
  have hspec := @collectSignatures_spec committee.members.length committee.requiredSignatures arrivals [] 0 0
    (by simp [hlen]) (by omega) (Nat.zero_le _) rfl
  unfold getSignaturesAndAddrsFromDataCommittee
  by_cases henough : committee.requiredSignatures ≤ 0 + arrivals.countP SignatureMsg.good
  · rw [if_pos henough] at hspec
    obtain ⟨pre, hpre, hcol, hcnt⟩ := hspec
    rw [List.nil_append] at hcol hcnt
    rw [hcol]
    refine ⟨_, rfl, ⟨(by rintro ⟨e, he⟩; cases he), fun hlt => absurd hlt (by omega)⟩,
      fun bytes hbytes => ?_⟩
    cases hbytes
    -- what was read is one message per member at most
    have hsub : pre.Subperm O := (hpre.sublist.subperm).trans harr.subperm
    refine ⟨(pre.mergeSort sortLe).filter SignatureMsg.good, ?_, ?_, fun m hm => ?_, ?_, ?_⟩
    · rw [← List.countP_eq_length_filter, (List.mergeSort_perm pre sortLe).countP_eq]
      simpa using hcnt
    · exact (((List.mergeSort_perm pre sortLe).filter _).subperm.trans
        List.filter_sublist.subperm).trans hsub
    · obtain ⟨hm, hok⟩ := List.mem_filter.mp hm
      obtain ⟨i, member, -, rfl⟩ := mem_outcomes (hsub.subset ((List.mergeSort_perm pre sortLe).subset hm))
      exact (requestSignatureFromMember_spec member (signSequence i) signer).2.1 hok
    · exact ((List.pairwise_mergeSort sortLe_trans sortLe_total pre).filter _).imp fun h => by
        simpa [sortLe] using h
    · rw [buildSignaturesAndAddrs, flatMap_signature_filter_good]
      intro m hm hbad
      obtain ⟨i, member, -, rfl⟩ := mem_outcomes (hsub.subset ((List.mergeSort_perm pre sortLe).subset hm))
      exact (requestSignatureFromMember_spec member (signSequence i) signer).2.2 hbad
  · rw [if_neg henough] at hspec
    rw [hspec]
    exact ⟨_, rfl, ⟨fun _ => by omega, fun _ => ⟨_, rfl⟩⟩, fun bytes hbytes => by cases hbytes⟩

/-- Three members, two signatures required; the second member is down, and
the messages arrive in reverse order: the collection succeeds. -/
theorem getSignaturesAndAddrs_spec_two_of_three :
    let a : Address := ⟨List.replicate 20 1, rfl⟩
    let c : Address := ⟨List.replicate 20 3, rfl⟩
    let committee : DataCommittee := ⟨[⟨a⟩, ⟨⟨List.replicate 20 2, rfl⟩⟩, ⟨c⟩], 2⟩
    let signSequence : Nat → Except String (List UInt8) := fun i =>
      if i = 1 then .error "connection refused" else .ok [i.toUInt8]
    let signer : List UInt8 → Except String Address := fun signature =>
      if signature = [0] then .ok a else .ok c
    ∃ bytes, getSignaturesAndAddrsFromDataCommittee committee
      (outcomes committee signSequence signer).reverse = some (.ok bytes) := by
  intro a c committee signSequence signer
  obtain ⟨r, hr, hiff, -⟩ := getSignaturesAndAddrs_spec committee signSequence signer
    (outcomes committee signSequence signer).reverse (by decide) (List.reverse_perm _)
  cases r with
  | error e => exact absurd (hiff.mp ⟨e, rfl⟩) (by decide)
  | ok bytes => exact ⟨bytes, hr⟩

end CdkValidium.SequenceSender
