import QuadBase.Store.Statements

/-!
# Auditing the statements of a store

The audit follows every chain of every handle.  A chain has to stay within the records, must not be
longer than there are records, and its live records have to use the handle in the position.  The
counts have to agree with the chains, the chains of each position have to hold as many live records
as there are, and the index has to know each of them.

* `Statements.audit` — the first fault, if there is one.
-/

namespace QuadBase.Store

open QuadBase.Rdf

/-- A contradiction between the structures of a store. -/
inductive Fault where
  | danglingLink
  | cycle
  | wrongChain
  /-- A count differs from the number of live records in its chain. -/
  | wrongCount (counted listed : Nat)
  | wrongTotal
  | notIndexed
  | wrongLive
  deriving DecidableEq

def Fault.message : Fault → String
  | danglingLink => "Position list points past the statements"
  | cycle => "Cycle in a position list"
  | wrongChain => "Quad in wrong list"
  | wrongCount counted listed =>
    "The counter of a handle is " ++ toString counted ++ " but its list holds " ++
      toString listed ++ " quads"
  | wrongTotal => "Too many quads in a chain"
  | notIndexed => "Quad in the statements but not in the index"
  | wrongLive => "Wrong number of live quads"

namespace Statements

variable [Text.Hasher]

/-- The number of live records in the rest of a chain, which may have `steps` more records. -/
def auditFrom (records : Array Statement) (handle : Nat) (p : Position) :
    (steps : Nat) → (current : Option Nat) → (live : Nat) → Except Fault Nat
  | _, none, live => .ok live
  | steps, some id, live =>
    match records[id]? with
    | none => .error .danglingLink
    | some record =>
      match steps with
      | 0 => .error .cycle
      | steps + 1 =>
        match record.terms with
        | none => auditFrom records handle p steps (record.next.get p) live
        | some terms =>
          if terms.get p = handle then
            auditFrom records handle p steps (record.next.get p) (live + 1)
          else .error .wrongChain

/-- The number of live records in a chain, which has to be its count. -/
def auditChain (records : Array Statement) (handle : Nat) (p : Position) (c : Chain) :
    Except Fault Nat := do
  let live ← auditFrom records handle p records.size c.head 0
  if live = c.count then .ok live else .error (.wrongCount c.count live)

/-- Adds the numbers of live records in the chains of a handle to those of the handles before. -/
def auditHandle (records : Array Statement) (handle : Nat) (chains : PerPosition Chain)
    (listed : PerPosition Nat) : Except Fault (PerPosition Nat) :=
  [Position.subject, .predicate, .object, .graph].foldlM (fun listed p => do
    let live ← auditChain records handle p (chains.get p)
    return listed.modify p (· + live)) listed

/-- The numbers of live records in all chains of each position. -/
def auditChains (s : Statements) : Except Fault (PerPosition Nat) :=
  Prod.fst <$> s.chains.foldlM (fun (listed, handle) chains => do
    let listed ← auditHandle s.records handle chains listed
    return (listed, handle + 1)) (PerPosition.all 0, 0)

/-- The number of live records, each of which the index has to know. -/
def auditIndex (s : Statements) : Except Fault Nat :=
  Prod.fst <$> s.records.foldlM (fun (indexed, id) record =>
    match record.terms with
    | none => .ok (indexed, id + 1)
    | some terms =>
      if s.find? terms = some id then .ok (indexed + 1, id + 1) else .error .notIndexed) (0, 0)

/-- The first fault, if there is one. -/
def audit (s : Statements) : Except Fault Unit := do
  let listed ← s.auditChains
  if listed.toList.any fun (_, count) => count ≠ s.live then .error .wrongTotal
  else
    let indexed ← s.auditIndex
    if indexed = s.live then .ok () else .error .wrongLive

end Statements

end QuadBase.Store
