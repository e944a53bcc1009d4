import GrubLegacy.Base.ThreeWay
import GrubLegacy.Stage2.ParsedNumbers

/-!
# Device paths

A device path is a chain of nodes that ends with the first end node. `compare_device_paths`
orders them by their nodes, the types descending and everything else ascending.
-/

namespace GrubLegacy.Efi

open Base Stage2

/-- A node: its header, whose two bytes of length count the header too, and what follows. -/
structure PathNode where
  type : UInt8
  subtype : UInt8
  data : List UInt8
  short : data.length + 4 < 2 ^ 16
deriving DecidableEq

namespace PathNode

/-- GRUB_EFI_DEVICE_PATH_TYPE -/
def devicePathType (node : PathNode) : UInt8 := node.type &&& 0x7F

/-- GRUB_EFI_DEVICE_PATH_LENGTH -/
def length (node : PathNode) : Nat := node.data.length + 4

/-- The bytes of the node. -/
def bytes (node : PathNode) : List UInt8 :=
  [node.type, node.subtype, UInt8.ofNat node.length, UInt8.ofNat (node.length / 0x100)] ++ node.data

/-- GRUB_EFI_END_ENTIRE_DEVICE_PATH -/
def endEntire (node : PathNode) : Bool := node.devicePathType = 0x7F && node.subtype = 0xFF

end PathNode

/-- A device path: its nodes, and the end node behind them. -/
structure DevicePath where
  nodes : List PathNode
  final : PathNode
  ordinary : ∀ node ∈ nodes, node.endEntire = false
  ends : final.endEntire = true
deriving DecidableEq

/-- All the nodes. -/
def DevicePath.chain (path : DevicePath) : List PathNode := path.nodes ++ [path.final]

/-- `find_last_device_path`: the path from the node right before the end node on. -/
def findLastDevicePath (path : DevicePath) : Option DevicePath :=
  match last : path.nodes.getLast? with
  | none => none
  | some node =>
      some
        { nodes := [node]
          final := path.final
          ordinary := fun other member =>
            path.ordinary other (List.mem_singleton.mp member ▸ List.mem_of_getLast? last)
          ends := path.ends }

/-- `grub_memcmp`, on as many bytes of either. -/
def grubMemcmp : List UInt8 → List UInt8 → Int
  | a :: s1, b :: s2 =>
      if signedChar a < signedChar b then -1
      else if signedChar b < signedChar a then 1
      else grubMemcmp s1 s2
  | _, _ => 0

/-- A turn of the loop: what it returns for two nodes, or zero. -/
def compareNodes (node1 node2 : PathNode) : Int :=
  if node1.devicePathType ≠ node2.devicePathType then
    (node2.devicePathType.toNat : Int) - node1.devicePathType.toNat
  else if node1.subtype ≠ node2.subtype then
    (node1.subtype.toNat : Int) - node2.subtype.toNat
  else if node1.length ≠ node2.length then (node1.length : Int) - node2.length
  else grubMemcmp node1.bytes node2.bytes

/-- The loop of `compare_device_paths`. -/
def compareChains : List PathNode → List PathNode → Int
  | node1 :: rest1, node2 :: rest2 =>
      let ret := compareNodes node1 node2
      if ret ≠ 0 then ret else if node1.endEntire then 0 else compareChains rest1 rest2
  | _, _ => 0

/-- `compare_device_paths`; a path that is missing is different. -/
def compareDevicePaths : Option DevicePath → Option DevicePath → Int
  | some path1, some path2 => compareChains path1.chain path2.chain
  | _, _ => 1

/-! ## The order of paths -/

/-- What decides the order of nodes. -/
abbrev NodeKey := ℤ ×ₗ ℤ ×ₗ ℤ ×ₗ List ℤ

def PathNode.key (node : PathNode) : NodeKey :=
  toLex (-(node.devicePathType.toNat : Int), toLex ((node.subtype.toNat : Int),
    toLex ((node.length : Int), node.bytes.map signedChar)))

def DevicePath.key (path : DevicePath) : List NodeKey := path.chain.map PathNode.key

/-- Equal signed characters are equal bytes. -/
theorem signedChar_inj {a b : UInt8} (same : signedChar a = signedChar b) : a = b := by
  have boundA := a.toNat_lt
  have boundB := b.toNat_lt
  simp only [signedChar, UInt8.lt_iff_toNat_lt] at same
  apply UInt8.toNat_inj.mp
  split at same <;> split at same <;> simp at * <;> omega

/-- Texts of one length compare as their signed characters. -/
theorem compares_grubMemcmp {s1 s2 : List UInt8} (same : s1.length = s2.length) :
    ComparesTo (grubMemcmp s1 s2) (s1.map signedChar) (s2.map signedChar) := by
  induction s1 generalizing s2 with
  | nil =>
      obtain rfl := List.eq_nil_of_length_eq_zero same.symm
      exact .self _
  | cons a s1 ih =>
      obtain ⟨b, s2, rfl⟩ := List.exists_cons_of_length_eq_add_one same.symm
      have tests := ComparesTo.tests (signedChar a) (signedChar b)
      have compares := tests.cons (not_congr tests.2) fun _ => ih (Nat.succ.inj same)
      rw [List.map_cons, List.map_cons, grubMemcmp]
      split_ifs at compares ⊢ <;> simp_all

/-- A node is as long as it says. -/
@[simp] theorem length_bytes (node : PathNode) : node.bytes.length = node.length := by
  simp only [PathNode.bytes, PathNode.length, List.length_append, List.length_cons, List.length_nil]
  omega

/-- Nodes compare as their keys. -/
theorem compares_compareNodes (node1 node2 : PathNode) :
    ComparesTo (compareNodes node1 node2) node1.key node2.key := by
  have bytes (same : (node1.length : Int) = node2.length) :
      ComparesTo (grubMemcmp node1.bytes node2.bytes) (node1.bytes.map signedChar)
        (node2.bytes.map signedChar) := by
    apply compares_grubMemcmp
    rw [length_bytes, length_bytes]
    exact Int.ofNat_inj.mp same
  have lengths := ComparesTo.sub node1.length node2.length
  have subtypes := ComparesTo.sub node1.subtype.toNat node2.subtype.toNat
  have types := ComparesTo.sub (-(node1.devicePathType.toNat : Int)) (-node2.devicePathType.toNat)
  rw [neg_sub_neg] at types
  refine types.thenBy ?_ fun _ => subtypes.thenBy ?_ fun _ => lengths.thenBy ?_ bytes
  · rw [ne_eq, ne_eq, neg_inj, Int.ofNat_inj, UInt8.toNat_inj]
  · rw [ne_eq, ne_eq, Int.ofNat_inj, UInt8.toNat_inj]
  · rw [ne_eq, ne_eq, Int.ofNat_inj]

/-- The bytes of a node are the node. -/
theorem PathNode.bytes_inj {node1 node2 : PathNode} (same : node1.bytes = node2.bytes) :
    node1 = node2 := by
  simp only [PathNode.bytes, List.cons_append, List.nil_append, List.cons.injEq] at same
  obtain ⟨type, subtype, -, -, data⟩ := same
  cases node1
  cases node2
  simp_all

/-- Equal keys are those of equal nodes, -/
theorem PathNode.key_inj {node1 node2 : PathNode} (same : node1.key = node2.key) :
    node1 = node2 := by
  apply PathNode.bytes_inj
  have chars : node1.bytes.map signedChar = node2.bytes.map signedChar := by
    simp only [PathNode.key, toLex_inj, Prod.mk.injEq] at same
    exact same.2.2.2
  exact (List.map_injective_iff.mpr fun _ _ => signedChar_inj) chars

/-- and of equal paths. -/
theorem DevicePath.key_inj {path1 path2 : DevicePath} (same : path1.key = path2.key) :
    path1 = path2 := by
  have chain : path1.chain = path2.chain :=
    (List.map_injective_iff.mpr fun _ _ => PathNode.key_inj) same
  obtain ⟨nodes, final⟩ := List.append_inj' chain rfl
  cases path1
  cases path2
  simp_all

/-- Nodes differ just when their keys do. -/
theorem compareNodes_ne_zero_iff {node1 node2 : PathNode} :
    compareNodes node1 node2 ≠ 0 ↔ node1.key ≠ node2.key :=
  not_congr (compares_compareNodes node1 node2).2

/-- A turn of the loop, where equal nodes are the last ones or both are not. -/
theorem ComparesTo.turn {node1 node2 : PathNode} {rest1 rest2 : List PathNode}
    (later : node1 = node2 → ComparesTo (if node1.endEntire then 0 else compareChains rest1 rest2)
      (rest1.map PathNode.key) (rest2.map PathNode.key)) :
    ComparesTo (compareChains (node1 :: rest1) (node2 :: rest2))
      ((node1 :: rest1).map PathNode.key) ((node2 :: rest2).map PathNode.key) :=
  (compares_compareNodes node1 node2).cons compareNodes_ne_zero_iff fun same =>
    later (PathNode.key_inj same)

/-- The loop ends at the end nodes, and not before one of them. -/
theorem compares_compareChains {nodes1 nodes2 : List PathNode} {final1 final2 : PathNode}
    (ordinary1 : ∀ node ∈ nodes1, node.endEntire = false) (ends1 : final1.endEntire = true)
    (ordinary2 : ∀ node ∈ nodes2, node.endEntire = false) (ends2 : final2.endEntire = true) :
    ComparesTo (compareChains (nodes1 ++ [final1]) (nodes2 ++ [final2]))
      ((nodes1 ++ [final1]).map PathNode.key) ((nodes2 ++ [final2]).map PathNode.key) := by
  induction nodes1 generalizing nodes2 with
  | nil =>
      cases nodes2 with
      | nil =>
          refine ComparesTo.turn fun _ => ?_
          rw [if_pos ends1]
          exact .self _
      | cons node2 nodes2 =>
          refine ComparesTo.turn fun same => ?_
          have other := ordinary2 node2 List.mem_cons_self
          rw [← same, ends1] at other
          cases other
  | cons node1 nodes1 ih =>
      have going := ordinary1 node1 List.mem_cons_self
      cases nodes2 with
      | nil =>
          refine ComparesTo.turn fun same => ?_
          rw [same, ends2] at going
          cases going
      | cons node2 nodes2 =>
          refine ComparesTo.turn fun _ => ?_
          rw [going, if_neg (by decide)]
          exact ih (fun node member => ordinary1 node (List.mem_cons_of_mem _ member))
            fun node member => ordinary2 node (List.mem_cons_of_mem _ member)

/-- Paths are compared by their keys. -/
theorem compares_compareDevicePaths (path1 path2 : DevicePath) :
    ComparesTo (compareDevicePaths (some path1) (some path2)) path1.key path2.key :=
  compares_compareChains path1.ordinary path1.ends path2.ordinary path2.ends

end GrubLegacy.Efi
