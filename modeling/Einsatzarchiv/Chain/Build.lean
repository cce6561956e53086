/-
  File:      Einsatzarchiv/Chain/Build.lean
  Subject:   The chain analysis of crate `ea-chain`: `build_chain` and its parts.

  * `buildChain`: sorts the nodes, groups them by sequence, and reports forks, breaks, gaps and
    the head of the verified prefix.
  * `collectForks`, `collectBreaks`, `walkVerifiedPrefix`, `collectGaps`: the four passes.
  * `buildChain_eq_ok`: the one inversion of `buildChain`; everything later cites it.
-/
import Einsatzarchiv.Lib.Lists
import Einsatzarchiv.Lib.Guards
import Einsatzarchiv.Types
import Mathlib.Order.WithBot

namespace Einsatzarchiv.Chain

open Lib

/-! ## 1. Nodes and findings -/

/-- An entry, or what is left of one. -/
inductive ChainNodeKind
  | entryPackage | destroyedStub
deriving DecidableEq

/-- A signed position of the chain.  The sequence is a `u64`. -/
structure ChainNode where
  chainId : ChainId
  chainSequence : Nat
  previousEntryHash : Option EntryHash
  entryHash : EntryHash
  objectHash : ObjectHash
  writerCertificateHash : CertificateHash
  writerTransitionEventHash : Option ObjectHash
  kind : ChainNodeKind
  chainSequence_le : chainSequence ≤ u64Max := by decide

instance : DecidableEq ChainNode
  | ⟨a, b, c, d, e, f, g, k, _⟩, ⟨a', b', c', d', e', f', g', k', _⟩ =>
    decidable_of_iff (a = a' ∧ b = b' ∧ c = c' ∧ d = d' ∧ e = e' ∧ f = f' ∧ g = g' ∧ k = k')
      (by simp)

/-- More nodes than this are refused: `MAX_CHAIN_NODES_V1`. -/
def maxChainNodesV1 : Nat := 1048576

inductive ChainError
  | foreignChainId | genesisBinding | nodeLimit

/-- A place of a chain and what stands there. -/
structure ChainHead where
  chainId : ChainId
  chainSequence : Nat
  entryHash : EntryHash
deriving DecidableEq

/-- A node whose predecessor hash no node directly below carries. -/
structure ChainBreak where
  sequence : Nat
  (expectedPreviousEntryHash actualPreviousEntryHash : EntryHash)
  objectHash : ObjectHash

/-- Two entries on one place, or two behind one predecessor. -/
inductive ChainForkForm
  | sequenceCollision | predecessorCollision

/-- Two competing continuations; both pairs are sorted on their own. -/
structure ChainFork where
  chainId : ChainId
  sequence : Nat
  competingEntryHashes : EntryHash × EntryHash
  competingObjectHashes : ObjectHash × ObjectHash
  form : ChainForkForm

/-- Places of a chain where nothing stands. -/
structure ChainGap where
  chainId : ChainId
  (fromSequence throughSequence : Nat)
deriving DecidableEq

/-- The nodes of a chain and what is wrong with them. -/
structure VerifiedChain where
  chainId : ChainId
  nodes : List ChainNode
  breaks : List ChainBreak
  forks : List ChainFork
  gaps : List ChainGap
  (head verifiedHead : Option ChainHead)

def VerifiedChain.isFullyVerified (chain : VerifiedChain) : Bool :=
  chain.breaks.isEmpty && chain.gaps.isEmpty && chain.forks.isEmpty

def headOf (node : ChainNode) : ChainHead :=
  ⟨node.chainId, node.chainSequence, node.entryHash⟩

/-! ## 2. Forks -/

/-- One side of a fork: an entry hash with its smallest object hash and sequence. -/
structure Competitor where
  entryHash : EntryHash
  objectHash : ObjectHash
  sequence : Nat

/-- One round of the loop of `competitors`; the sides are held in reverse, so that the last one
is the head. -/
def pushCompetitor (sides : List Competitor) (node : ChainNode) : List Competitor :=
  match sides with
  | [] => [⟨node.entryHash, node.objectHash, node.chainSequence⟩]
  | last :: rest =>
    if last.entryHash = node.entryHash then
      ⟨last.entryHash, min last.objectHash node.objectHash,
        min last.sequence node.chainSequence⟩ :: rest
    else
      ⟨node.entryHash, node.objectHash, node.chainSequence⟩ :: last :: rest

/-- The entry hashes of a group, in the order of their first node. -/
def competitors (nodes : List ChainNode) : List Competitor :=
  (nodes.foldl pushCompetitor []).reverse

/-- A pair in ascending order. -/
def sortPair (a b : Nat) : Nat × Nat := (min a b, max a b)

/-- The fork between two competitors. -/
def forkOf (chainId : ChainId) (left right : Competitor) (form : ChainForkForm) : ChainFork where
  chainId := chainId
  sequence := min left.sequence right.sequence
  competingEntryHashes := sortPair left.entryHash right.entryHash
  competingObjectHashes := sortPair left.objectHash right.objectHash
  form := form

/-- The forks between neighbouring sides of one group. -/
def groupForks (chainId : ChainId) (form : ChainForkForm) (group : List ChainNode) :
    List ChainFork :=
  (windows2 (competitors group)).map fun pair => forkOf chainId pair.1 pair.2 form

/-- The predecessor hash in its order: `None` lies below every `Some`. -/
def predecessor (node : ChainNode) : WithBot EntryHash := node.previousEntryHash

/-- The sort key of the nodes that name a predecessor. -/
def predecessorKey (node : ChainNode) :
    WithBot EntryHash ×ₗ EntryHash ×ₗ ObjectHash ×ₗ Nat :=
  toLex (predecessor node, toLex (node.entryHash, toLex (node.objectHash, node.chainSequence)))

/-- The nodes that name a predecessor, sorted by it. -/
def byPredecessor (sorted : List ChainNode) : List ChainNode :=
  sortByKey predecessorKey (sorted.filter fun node => node.previousEntryHash.isSome)

/-- Forks on one place first; a pair is not reported in both forms. -/
def collectForks (chainId : ChainId) (sorted : List ChainNode) (groups : List (List ChainNode)) :
    List ChainFork :=
  let sequenceForks := groups.flatMap (groupForks chainId .sequenceCollision)
  let sequencePairs := sequenceForks.map (·.competingEntryHashes)
  let predecessorForks :=
    (groupsBy predecessor (byPredecessor sorted)).flatMap fun group =>
      (groupForks chainId .predecessorCollision group).filter fun fork =>
        decide (fork.competingEntryHashes ∉ sequencePairs)
  sortByKey (fun fork => toLex (fork.sequence, fork.competingEntryHashes.1))
    (sequenceForks ++ predecessorForks)

/-! ## 3. Breaks, the verified prefix and gaps -/

/-- The break of `node` against the group directly below it.  The group is sorted by entry hash,
so the binary search of the source is membership. -/
def breakOf (preceding : List ChainNode) (node : ChainNode) : Option ChainBreak :=
  match preceding, node.previousEntryHash with
  | first :: _, some actual =>
    if preceding.any (fun candidate => candidate.entryHash == actual) then none
    else some ⟨node.chainSequence, first.entryHash, actual, node.objectHash⟩
  | _, _ => none

/-- Do the two groups stand on successive sequences? -/
def successive (preceding group : List ChainNode) : Bool :=
  match preceding, group with
  | first :: _, node :: _ => checkedAdd first.chainSequence 1 == some node.chainSequence
  | _, _ => false

/-- Nodes that name no predecessor on the place before theirs. -/
def collectBreaks (groups : List (List ChainNode)) : List ChainBreak :=
  (windows2 groups).flatMap fun pair =>
    if successive pair.1 pair.2 then pair.2.filterMap (breakOf pair.1) else []

/-- Where the first fork or break is. -/
def firstDisputedSequence (forks : List ChainFork) (breaks : List ChainBreak) :
    Option Nat :=
  (forks.map (·.sequence) ++ breaks.map (·.sequence)).min?

/-- Does `node` continue the prefix that ends in `verified`? -/
def continues (verified : Option ChainHead) (node : ChainNode) : Bool :=
  match verified with
  | none => true
  | some preceding =>
    checkedAdd preceding.chainSequence 1 == some node.chainSequence &&
      node.previousEntryHash == some preceding.entryHash

/-- The loop of `walk_verified_prefix`; it looks at the first node of each group. -/
def walkVerifiedPrefix (stop : Option Nat) :
    Option ChainHead → List (List ChainNode) → Option ChainHead
  | verified, (node :: _) :: groups =>
    if stop.any (· ≤ node.chainSequence) then verified
    else if continues verified node then
      walkVerifiedPrefix stop (some (headOf node)) groups
    else verified
  | verified, _ => verified

/-- The loop of `collect_gaps`, with the next expected sequence. -/
def collectGaps (chainId : ChainId) : Nat → List ChainNode → List ChainGap
  | _, [] => []
  | expected, node :: rest =>
    let next := (checkedAdd node.chainSequence 1).getD node.chainSequence
    if expected < node.chainSequence then
      ⟨chainId, expected, node.chainSequence - 1⟩ :: collectGaps chainId next rest
    else collectGaps chainId next rest

/-! ## 4. The analysis -/

/-- One round of the admission loop. -/
def validateNode (chainId : ChainId) (node : ChainNode) : Except ChainError Unit := do
  ensure (node.chainId == chainId) .foreignChainId
  ensure (decide (node.chainSequence = 0) == node.previousEntryHash.isNone) .genesisBinding

/-- The sort key of the chain order. -/
def chainKey (node : ChainNode) : Nat ×ₗ EntryHash ×ₗ ObjectHash :=
  toLex (node.chainSequence, toLex (node.entryHash, node.objectHash))

/-- The nodes in chain order, without repetitions. -/
def sortNodes (nodes : List ChainNode) : List ChainNode :=
  (sortByKey chainKey nodes).destutter (· ≠ ·)

/-- The analysis of admitted nodes. -/
def analyse (chainId : ChainId) (nodes : List ChainNode) : VerifiedChain :=
  let sorted := sortNodes nodes
  let groups := groupsBy (·.chainSequence) sorted
  let forks := collectForks chainId sorted groups
  let breaks := collectBreaks groups
  { chainId := chainId
    nodes := sorted
    breaks := breaks
    forks := forks
    gaps := collectGaps chainId 0 sorted
    head := sorted.getLast?.map headOf
    verifiedHead := walkVerifiedPrefix (firstDisputedSequence forks breaks) none groups }

/-- The nodes are checked one by one, then analysed. -/
def buildChain (chainId : ChainId) (nodes : List ChainNode) : Except ChainError VerifiedChain := do
  ensure (nodes.length ≤ maxChainNodesV1) .nodeLimit
  forM nodes (validateNode chainId)
  return analyse chainId nodes

/-- What the admission loop checks of a node. -/
structure Admitted (chainId : ChainId) (node : ChainNode) : Prop where
  chainId_eq : node.chainId = chainId
  genesis : node.chainSequence = 0 ↔ node.previousEntryHash = none

theorem validateNode_eq_ok {cid : ChainId} {node : ChainNode} :
    validateNode cid node = .ok () ↔ Admitted cid node := by
  have hg : (decide (node.chainSequence = 0) == node.previousEntryHash.isNone) = true ↔
      (node.chainSequence = 0 ↔ node.previousEntryHash = none) := by
    rw [beq_iff_eq, Bool.eq_iff_iff, decide_eq_true_iff, Option.isNone_iff_eq_none]
  constructor
  · intro h
    obtain ⟨u, h₁, h₂⟩ := bind_eq_ok.mp h
    exact ⟨beq_iff_eq.mp (ensure_eq_ok.mp h₁), hg.mp (ensure_eq_ok.mp h₂)⟩
  · intro h
    exact bind_eq_ok.mpr ⟨(), ensure_eq_ok.mpr (beq_iff_eq.mpr h.chainId_eq),
      ensure_eq_ok.mpr (hg.mpr h.genesis)⟩

/-- Why the admission loop refuses a node: the chain is compared before the genesis rule. -/
def Refused (chainId : ChainId) (node : ChainNode) : ChainError → Prop
  | .foreignChainId => node.chainId ≠ chainId
  | .genesisBinding => node.chainId = chainId ∧
      ¬ (node.chainSequence = 0 ↔ node.previousEntryHash = none)
  | _ => False

theorem validateNode_eq_error {cid : ChainId} {node : ChainNode} {error : ChainError} :
    validateNode cid node = .error error ↔ Refused cid node error := by
  have hg : (decide (node.chainSequence = 0) == node.previousEntryHash.isNone) = false ↔
      ¬ (node.chainSequence = 0 ↔ node.previousEntryHash = none) := by
    rw [Bool.eq_false_iff, ne_eq, beq_iff_eq, Bool.eq_iff_iff, decide_eq_true_iff,
      Option.isNone_iff_eq_none]
  rw [validateNode, bind_eq_error]
  simp only [ensure_eq_error, ensure_eq_ok, hg, beq_iff_eq, beq_eq_false_iff_ne, exists_const]
  cases error <;> simp [Refused]

/-- The error is that of the first node, in the order given, that is not admitted. -/
def FirstRefused (chainId : ChainId) (nodes : List ChainNode) (error : ChainError) : Prop :=
  ∃ front node rest, nodes = front ++ node :: rest ∧ (∀ earlier ∈ front, Admitted chainId earlier)
    ∧ Refused chainId node error

/-- **Which error is reported**: too many nodes, or the first node that is not admitted. -/
theorem buildChain_eq_error {cid : ChainId} {nodes : List ChainNode} {error : ChainError} :
    buildChain cid nodes = .error error ↔
      maxChainNodesV1 < nodes.length ∧ error = .nodeLimit
        ∨ nodes.length ≤ maxChainNodesV1 ∧ FirstRefused cid nodes error := by
  have hf : forM nodes (validateNode cid) = .error error ↔ FirstRefused cid nodes error := by
    simp only [forM_eq_error, validateNode_eq_ok, validateNode_eq_error, FirstRefused]
  simp only [buildChain, bind_eq_error, hf, ensure_eq_error, ensure_eq_ok, decide_eq_false_iff_not,
    decide_eq_true_eq, Nat.not_le, exists_const, @eq_comm _ error]
  refine or_congr_right (and_congr_right fun _ => or_iff_left ?_)
  rintro ⟨-, -, h⟩
  cases h

/-- **What a successful analysis is**: the nodes fit the limit, each is admitted, and the result
is their analysis. -/
theorem buildChain_eq_ok {cid : ChainId} {nodes : List ChainNode} {chain : VerifiedChain} :
    buildChain cid nodes = .ok chain ↔
      nodes.length ≤ maxChainNodesV1 ∧ (∀ node ∈ nodes, Admitted cid node) ∧
        chain = analyse cid nodes := by
  simp [buildChain, forM_eq_ok, validateNode_eq_ok, @eq_comm _ chain]

end Einsatzarchiv.Chain
