import Artifice.Lib.SearchTree
import Artifice.Engine.Life

/-!
The engine queues: a red-black tree of requests by their blocks, with a lock around every operation.

The descent of `afs_eq_add` has no exit for a block that is queued already. The balancing is that of the
kernel, of which only the sequence in order is used.
-/

namespace Artifice

open Lib

/-- A request in a queue: its address and its block. -/
structure QueuedRequest where
  address : ℕ
  block : ℕ
  deriving DecidableEq

/-- The tree of a queue. -/
abbrev QueueTree := SearchTree QueuedRequest

/-- The functions of the kernel on a tree: the balancing keeps the sequence in order, and erasing takes
one element out of it. -/
structure RbTree where
  insertColor : QueuedRequest → QueueTree → QueueTree
  erase : QueuedRequest → QueueTree → QueueTree
  insertColor_toList : ∀ x t, (insertColor x t).toList = t.toList
  erase_toList : ∀ x t, x ∈ t.toList → (erase x t).toList = t.toList.erase x

/-- The descent of `afs_eq_add` and `rb_link_node`: the element becomes the leaf at which the descent
ends. A round for the block of a node stays at the node. -/
def afsEqLink (element : QueuedRequest) : ℕ → QueueTree → Option QueueTree
  | 0, _ => none
  | _ + 1, .leaf => some (.node .leaf element .leaf)
  | fuel + 1, .node left this right =>
    if element.block < this.block then (afsEqLink element fuel left).map fun t => .node t this right
    else if this.block < element.block then
      (afsEqLink element fuel right).map fun t => .node left this t
    else afsEqLink element fuel (.node left this right)

/-- `afs_eq_add`. -/
def afsEqAdd (rb : RbTree) (fuel : ℕ) (eq : QueueTree) (element : QueuedRequest) : Option QueueTree :=
  (afsEqLink element fuel eq).map (rb.insertColor element)

/-- `afs_eq_remove`. -/
def afsEqRemove (rb : RbTree) (eq : QueueTree) (req : QueuedRequest) : QueueTree :=
  match eq with
  | .leaf => .leaf
  | .node left this right => rb.erase req (.node left this right)

/-- The block of `afs_eq_req_exist`. -/
def bioBlockNum (bio : Bio) : ℕ := bio.biSector * 512 / 4096 % 2 ^ 32

/-- `afs_eq_req_exist`. -/
def afsEqFind (eq : QueueTree) (bio : Bio) : Option QueuedRequest :=
  eq.find QueuedRequest.block (bioBlockNum bio)

/-! ### Histories -/

/-- An operation on a queue. -/
inductive EqOp
  | add (element : QueuedRequest)
  | remove (req : QueuedRequest)

/-- The requests that have been added and not removed. -/
def EqOp.after (queued : List QueuedRequest) : EqOp → List QueuedRequest
  | add element => element :: queued
  | remove req => queued.erase req

def queuedAfter (queued : List QueuedRequest) (ops : List EqOp) : List QueuedRequest :=
  ops.foldl EqOp.after queued

/-- What is removed is queued, unless nothing is: `rb_erase` is for a node of the tree. -/
def Removable : List QueuedRequest → List EqOp → Prop
  | _, [] => True
  | queued, op :: ops =>
    (∀ req, op = .remove req → queued = [] ∨ req ∈ queued) ∧ Removable (op.after queued) ops

/-- No block is added while a request for it is queued. -/
def FreshBlocks : List QueuedRequest → List EqOp → Prop
  | _, [] => True
  | queued, op :: ops =>
    (∀ element, op = .add element → ∀ x ∈ queued, x.block ≠ element.block) ∧
      FreshBlocks (op.after queued) ops

/-- The operations, one after the other, all end. -/
inductive EqRun (rb : RbTree) : QueueTree → List EqOp → QueueTree → Prop
  | nil {t : QueueTree} : EqRun rb t [] t
  | add {t t₁ t' : QueueTree} {element : QueuedRequest} {ops : List EqOp} {fuel : ℕ} :
      afsEqAdd rb fuel t element = some t₁ → EqRun rb t₁ ops t' → EqRun rb t (.add element :: ops) t'
  | remove {t t' : QueueTree} {req : QueuedRequest} {ops : List EqOp} :
      EqRun rb (afsEqRemove rb t req) ops t' → EqRun rb t (.remove req :: ops) t'

section

variable {rb : RbTree} {t t' left right : QueueTree} {element x : QueuedRequest} {ops : List EqOp}
  {queued : List QueuedRequest} {fuel : ℕ} {bio : Bio}

/-! ### Adding -/

theorem afsEqLink_returns (hfresh : ∀ x ∈ t.toList, x.block ≠ element.block) :
    ∃ fuel t', afsEqLink element fuel t = some t' := by
  induction t with
  | leaf => exact ⟨1, _, rfl⟩
  | node left this right ihl ihr =>
    have hne := hfresh this (List.mem_append_right _ List.mem_cons_self)
    rcases Nat.lt_or_gt_of_ne hne with hgt | hlt
    · obtain ⟨fuel, t', ht'⟩ := ihr fun x hx =>
        hfresh x (List.mem_append_right _ (List.mem_cons_of_mem _ hx))
      refine ⟨fuel + 1, .node left this t', ?_⟩
      rw [afsEqLink, if_neg (by omega), if_pos hgt, ht']
      rfl
    · obtain ⟨fuel, t', ht'⟩ := ihl fun x hx => hfresh x (List.mem_append_left _ hx)
      refine ⟨fuel + 1, .node t' this right, ?_⟩
      rw [afsEqLink, if_pos hlt, ht']
      rfl

theorem afsEqLink_spec (hord : t.Ordered QueuedRequest.block)
    (h : afsEqLink element fuel t = some t') :
    (∀ x ∈ t.toList, x.block ≠ element.block) ∧ t'.Ordered QueuedRequest.block ∧
      t'.toList.Perm (element :: t.toList) := by
  induction fuel generalizing t t' with
  | zero => cases h
  | succ fuel ih =>
    cases t with
    | leaf =>
      rw [afsEqLink, Option.some.injEq] at h
      subst h
      exact ⟨fun x hx => absurd hx List.not_mem_nil, ⟨⟨nofun, nofun⟩, trivial, trivial⟩, List.Perm.refl _⟩
    | node left this right =>
      rw [afsEqLink] at h
      split_ifs at h with hlt hgt
      · obtain ⟨left', hlink, rfl⟩ := Option.map_eq_some_iff.1 h
        obtain ⟨hfresh, hord', hperm⟩ := ih hord.2.1 hlink
        refine ⟨fun x hx heq => hfresh x (hord.mem_left hx (by omega)) heq,
          ⟨⟨fun y hy => ?_, hord.1.2⟩, hord', hord.2.2⟩, hperm.append_right _⟩
        rcases List.mem_cons.1 (hperm.mem_iff.1 hy) with rfl | hy
        · exact hlt
        · exact hord.1.1 y hy
      · obtain ⟨right', hlink, rfl⟩ := Option.map_eq_some_iff.1 h
        obtain ⟨hfresh, hord', hperm⟩ := ih hord.2.2 hlink
        refine ⟨fun x hx heq => hfresh x (hord.mem_right hx (by omega)) heq,
          ⟨⟨hord.1.1, fun y hy => ?_⟩, hord.2.1, hord'⟩, ?_⟩
        · rcases List.mem_cons.1 (hperm.mem_iff.1 hy) with rfl | hy
          · exact hgt
          · exact hord.1.2 y hy
        · calc List.Perm (left.toList ++ this :: right'.toList)
                (left.toList ++ this :: element :: right.toList) := (hperm.cons this).append_left _
            List.Perm _ (left.toList ++ element :: this :: right.toList) :=
              (List.Perm.swap element this _).append_left _
            List.Perm _ (element :: (left.toList ++ this :: right.toList)) := List.perm_middle
      · exact ih hord h

theorem RbTree.ordered_congr {t t' : QueueTree} (h : t'.toList = t.toList)
    (hord : t.Ordered QueuedRequest.block) : t'.Ordered QueuedRequest.block := by
  rw [SearchTree.ordered_iff] at hord ⊢
  rwa [h]

/-- **`afs_eq_add`**: if it ends, its block was not queued, and the element is queued now. -/
theorem afsEqAdd_spec (hord : t.Ordered QueuedRequest.block)
    (h : afsEqAdd rb fuel t element = some t') :
    (∀ x ∈ t.toList, x.block ≠ element.block) ∧ t'.Ordered QueuedRequest.block ∧
      t'.toList.Perm (element :: t.toList) := by
  obtain ⟨t₁, hlink, rfl⟩ := Option.map_eq_some_iff.1 h
  obtain ⟨hfresh, hord', hperm⟩ := afsEqLink_spec hord hlink
  have hsame := rb.insertColor_toList element t₁
  refine ⟨hfresh, RbTree.ordered_congr hsame hord', ?_⟩
  rwa [hsame]

/-! ### Removing -/

theorem afsEqRemove_toList (hx : t.toList = [] ∨ x ∈ t.toList) :
    (afsEqRemove rb t x).toList = t.toList.erase x := by
  cases t with
  | leaf => rfl
  | node left this right => exact rb.erase_toList x _ (hx.resolve_left (by simp [SearchTree.toList]))

theorem afsEqRemove_ordered (hord : t.Ordered QueuedRequest.block)
    (hx : t.toList = [] ∨ x ∈ t.toList) : (afsEqRemove rb t x).Ordered QueuedRequest.block := by
  rw [SearchTree.ordered_iff] at hord ⊢
  rw [afsEqRemove_toList hx]
  exact hord.sublist List.erase_sublist

theorem Removable.tree (hrem : Removable queued (.remove x :: ops)) (hperm : t.toList.Perm queued) :
    t.toList = [] ∨ x ∈ t.toList := by
  refine (hrem.1 x rfl).imp (fun hnil => ?_) hperm.mem_iff.2
  rw [hnil] at hperm
  exact hperm.eq_nil

/-! ### Runs -/

theorem EqRun.of_fresh (hord : t.Ordered QueuedRequest.block) (hperm : t.toList.Perm queued)
    (hrem : Removable queued ops) (hfresh : FreshBlocks queued ops) : ∃ t', EqRun rb t ops t' := by
  induction ops generalizing t queued with
  | nil => exact ⟨t, .nil⟩
  | cons op ops ih =>
    cases op with
    | add element =>
      have hblock := fun x hx => hfresh.1 element rfl x (hperm.mem_iff.1 hx)
      obtain ⟨fuel, t₁, hlink⟩ := afsEqLink_returns hblock
      have hadd : afsEqAdd rb fuel t element = some (rb.insertColor element t₁) := by
        rw [afsEqAdd, hlink]
        rfl
      obtain ⟨-, hord', hperm'⟩ := afsEqAdd_spec hord hadd
      obtain ⟨t', hrun⟩ := ih hord' (hperm'.trans (hperm.cons element)) hrem.2 hfresh.2
      exact ⟨t', .add hadd hrun⟩
    | remove req =>
      have hx := hrem.tree hperm
      have hperm' : (afsEqRemove rb t req).toList.Perm (queued.erase req) := by
        rw [afsEqRemove_toList hx]
        exact hperm.erase req
      obtain ⟨t', hrun⟩ := ih (afsEqRemove_ordered hord hx) hperm' hrem.2 hfresh.2
      exact ⟨t', .remove hrun⟩

theorem EqRun.spec (h : EqRun rb t ops t') (hord : t.Ordered QueuedRequest.block)
    (hperm : t.toList.Perm queued) (hrem : Removable queued ops) :
    FreshBlocks queued ops ∧ t'.Ordered QueuedRequest.block ∧
      t'.toList.Perm (queuedAfter queued ops) := by
  induction h generalizing queued with
  | nil => exact ⟨trivial, hord, hperm⟩
  | @add t t₁ t' element ops fuel hadd hrun ih =>
    obtain ⟨hblock, hord', hperm'⟩ := afsEqAdd_spec hord hadd
    obtain ⟨hfresh, hspec⟩ := ih hord' (hperm'.trans (hperm.cons element)) hrem.2
    refine ⟨⟨fun e he x hx => ?_, hfresh⟩, hspec⟩
    rw [← EqOp.add.inj he]
    exact hblock x (hperm.mem_iff.2 hx)
  | @remove t t' req ops hrun ih =>
    have hx := hrem.tree hperm
    have hperm' : (afsEqRemove rb t req).toList.Perm (queued.erase req) := by
      rw [afsEqRemove_toList hx]
      exact hperm.erase req
    obtain ⟨hfresh, hspec⟩ := ih (afsEqRemove_ordered hord hx) hperm' hrem.2
    exact ⟨⟨fun e he => absurd he (by simp), hfresh⟩, hspec⟩

/-- **When the operations on a queue end**, keep the search order, and `afs_eq_req_exist` finds exactly
what has been added and not removed: when no block is added while a request for it is queued. -/
theorem eqRun_iff (hord : t.Ordered QueuedRequest.block) (hrem : Removable t.toList ops) :
    (∃ t', EqRun rb t ops t' ∧ t'.Ordered QueuedRequest.block ∧
      ∀ bio x, afsEqFind t' bio = some x ↔
        x ∈ queuedAfter t.toList ops ∧ x.block = bioBlockNum bio) ↔
      FreshBlocks t.toList ops := by
  constructor
  · rintro ⟨t', hrun, -, -⟩
    exact (hrun.spec hord (List.Perm.refl _) hrem).1
  · intro hfresh
    obtain ⟨t', hrun⟩ : ∃ t', EqRun rb t ops t' :=
      EqRun.of_fresh hord (List.Perm.refl _) hrem hfresh
    obtain ⟨-, hord', hperm⟩ := hrun.spec hord (List.Perm.refl _) hrem
    refine ⟨t', hrun, hord', fun bio x => ?_⟩
    rw [afsEqFind, hord'.find_eq_some_iff, hperm.mem_iff]

end

/-- A tree without left parts. -/
def rightTree (l : List QueuedRequest) : QueueTree := l.foldr (fun x t => .node .leaf x t) .leaf

theorem rightTree_toList (l : List QueuedRequest) : (rightTree l).toList = l := by
  induction l with
  | nil => rfl
  | cons x l ih =>
    show [] ++ x :: (rightTree l).toList = x :: l
    rw [ih, List.nil_append]

/-- The kernel's functions on trees that need no balancing. -/
def plainRbTree : RbTree where
  insertColor _ t := t
  erase x t := rightTree (t.toList.erase x)
  insertColor_toList _ _ := rfl
  erase_toList x t _ := rightTree_toList (t.toList.erase x)

/-- Two requests are added, and the second one is removed. -/
def twoRequests : List EqOp := [.add ⟨0x1000, 5⟩, .add ⟨0x2000, 9⟩, .remove ⟨0x2000, 9⟩]

theorem eqRun_twoRequests : ∃ t', EqRun plainRbTree .leaf twoRequests t' ∧
    t'.Ordered QueuedRequest.block ∧ ∀ bio x, afsEqFind t' bio = some x ↔
      x ∈ queuedAfter [] twoRequests ∧ x.block = bioBlockNum bio := by
  have hrem : Removable (SearchTree.leaf : QueueTree).toList twoRequests :=
    ⟨by simp, by simp, by simp [EqOp.after], trivial⟩
  have hord : (SearchTree.leaf : QueueTree).Ordered QueuedRequest.block := trivial
  refine (eqRun_iff hord hrem).2 ⟨?_, ?_, ?_, trivial⟩
  · simp [SearchTree.toList]
  · simp [EqOp.after, SearchTree.toList]
  · simp

/-- A second request for a block: the descent of `afs_eq_add` never ends. -/
theorem not_afsEqAdd_ends :
    (SearchTree.node .leaf ⟨0x1000, 5⟩ .leaf).Ordered QueuedRequest.block ∧
    ∀ rb fuel, afsEqAdd rb fuel (.node .leaf ⟨0x1000, 5⟩ .leaf) ⟨0x2000, 5⟩ = none := by
  refine ⟨⟨⟨nofun, nofun⟩, trivial, trivial⟩, fun rb fuel => ?_⟩
  rw [afsEqAdd, Option.map_eq_none_iff]
  induction fuel with
  | zero => rfl
  | succ fuel ih => rwa [afsEqLink, if_neg (by decide), if_neg (by decide)]

end Artifice
