/-
Netlink.Qdisc — `modify_qdisc` of `lib/tst_netdevice.c` from its context on, where
`tst_brk` returns. The list function gives -1 or the number of attributes, so `!ret`
is true of an empty list only.
-/
import LtpDdt.Netlink.Context
import LtpDdt.CTypes.Result

namespace LtpDdt.Netlink

open Tlv CTypes

/-- The calls of `tst_netlink_send_validate` and `tst_netlink_destroy_context`. -/
inductive Use where
  | send
  | destroy
  deriving DecidableEq

def tcaKind : UInt16 := 1

variable (heap : Heap) (addr : Nat) (header : Nlmsghdr) (msg kind : List UInt8)

/-- `create_request` and `tst_rtnl_add_attr_string`; `none` if one of them failed. -/
def requestQdisc : Except Fault (Option Ctx) := do
  let (ok, c) ← tstNetlinkAddMessage heap (tstNetlinkCreateContext addr) header msg
  if !ok then return none
  let (ok, c) ← tstRtnlAddAttr heap c tcaKind (kind ++ [0])
  return if ok then some c else none

def modifyQdisc (config : Option Forest) : Except Fault (List Use) := do
  match ← requestQdisc heap addr header msg kind, config with
  | none, _ => return [.destroy]
  | some _, none => return [.send, .destroy]
  | some c, some list =>
    let (ret, _) ← tstRtnlAddAttrList heap c list
    return if ret = 0 then [.destroy] else [.send, .destroy]

/-- All attributes of the list are in the message. -/
def Added (c : Ctx) (list : Forest) : Prop :=
  ∃ c', tstRtnlAddAttrList heap c list = .ok ((list.count : Nat), c')

variable {heap addr header msg kind}

lemma addAttrListFrom_ret {add f i c ret c'} (h : addAttrListFrom add f i c = .ok (ret, c')) :
    ret = -1 ∨ ret = (i + f.count : Nat) := by
  induction f generalizing i c ret c' with
  | nil =>
    cases h
    exact .inr rfl
  | leaf _ _ next ih =>
    rw [addAttrListFrom] at h
    split at h
    · cases h
      exact .inl rfl
    obtain ⟨⟨_ | _, _⟩, -, h⟩ := bind_eq_ok h
    · cases h
      exact .inl rfl
    · simpa only [Forest.count, Nat.add_assoc, Nat.add_comm 1] using ih h
  | nest _ _ sub next ihs ihn =>
    rw [addAttrListFrom] at h
    split at h
    · cases h
      exact .inl rfl
    obtain ⟨⟨_ | _, _⟩, -, h⟩ := bind_eq_ok h
    · cases h
      exact .inl rfl
    obtain ⟨⟨_, _⟩, hsub, h⟩ := bind_eq_ok h
    dsimp only at h
    split at h
    · have := ihs hsub
      cases h
      omega
    split at h
    · cases h
      exact .inl rfl
    obtain ⟨_, -, h⟩ := bind_eq_ok h
    simpa only [Forest.count, Nat.add_assoc, Nat.add_comm 1] using ihn h

/-- **The request is right exactly for a list that is not empty and can be added.** -/
theorem modifyQdisc_right_iff {config uses}
    (h : modifyQdisc heap addr header msg kind config = .ok uses) : uses.count .destroy = 1 ∧
      ((.send ∈ uses ↔ ∃ c, requestQdisc heap addr header msg kind = .ok (some c) ∧
          ∀ list ∈ config, Added heap c list) ↔
        ∀ c, requestQdisc heap addr header msg kind = .ok (some c) →
          ∀ list ∈ config, list ≠ .nil ∧ Added heap c list) := by
  obtain ⟨req, hreq, h⟩ := bind_eq_ok h
  rw [hreq]
  rcases req with _ | c
  · cases h
    simp
  rcases config with _ | list
  · cases h
    simp
  obtain ⟨⟨ret, _⟩, hret, h⟩ := bind_eq_ok h
  cases h
  have hadded : Added heap c list ↔ ret = (list.count : Nat) := by simp [Added, hret]
  have hcount := addAttrListFrom_ret hret
  have hpos : list ≠ .nil ↔ 0 < list.count := by cases list <;> simp [Forest.count]
  by_cases h0 : ret = 0 <;> simp [h0, hadded, hpos] <;> omega

/-- No more memory. -/
def fullHeap : Heap := ⟨fun _ _ => none, nofun⟩

/-- A number, and a nested list of two attributes. -/
def sampleConfig : Forest :=
  .leaf 1 [5, 6, 7, 8] (.nest 2 [] (.leaf 3 [9] (.leaf 4 [10, 11] .nil)) .nil)

/-- The request with the list is sent, as all of the list is added. -/
theorem modifyQdisc_right_nested :
    modifyQdisc fullHeap 4096 {} [1, 2, 3, 4] [102, 113] (some sampleConfig) =
        .ok [.send, .destroy] ∧
      [Use.send, .destroy].count .destroy = 1 ∧
      ∃ c, requestQdisc fullHeap 4096 {} [1, 2, 3, 4] [102, 113] = .ok (some c) ∧
        Added fullHeap c sampleConfig := by
  have h : modifyQdisc fullHeap 4096 {} [1, 2, 3, 4] [102, 113] (some sampleConfig) =
      .ok [.send, .destroy] := by decide +kernel
  have hret : ((requestQdisc fullHeap 4096 {} [1, 2, 3, 4] [102, 113]).bind fun c =>
      c.elim (.ok 0) fun c => tstRtnlAddAttrList fullHeap c sampleConfig >>= fun (ret, _) =>
        .ok ret) =
        .ok (sampleConfig.count : Nat) := by decide +kernel
  obtain ⟨hcount, hiff⟩ := modifyQdisc_right_iff h
  refine ⟨h, hcount, ?_⟩
  have hright := hiff.mpr fun c hc list hlist => ?_
  · obtain ⟨c, hc, hadded⟩ := hright.mp (by simp)
    exact ⟨c, hc, hadded _ rfl⟩
  cases hlist
  rw [hc] at hret
  refine ⟨by simp [sampleConfig], ?_⟩
  change (tstRtnlAddAttrList fullHeap c sampleConfig >>= fun (ret, _) => .ok ret) = _ at hret
  obtain ⟨⟨ret, c'⟩, hadd, hret⟩ := bind_eq_ok hret
  cases (Except.ok.inj hret : ret = _)
  exact ⟨c', hadd⟩

/-- Nothing is sent without attributes, and the request is sent without one that has no room. -/
theorem modifyQdisc_wrong : modifyQdisc fullHeap 4096 {} [] [] (some .nil) = .ok [.destroy] ∧
    modifyQdisc fullHeap 4096 {} [] [] (some (.leaf 1 (.replicate 1024 0) .nil)) =
      .ok [.send, .destroy] := by
  decide +kernel

end LtpDdt.Netlink
