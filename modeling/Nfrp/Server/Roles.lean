import Nfrp.Client.Config
import Nfrp.Lib.Checked

/-!
# Roles

What the users of a role may register.  The first role that names a user is the
user's role.
-/

namespace Nfrp

open Lib Nfrp.Client

structure RolePorts where
  lo : Nat
  hi : Nat
  deriving DecidableEq, Repr

def RolePorts.contains (r : RolePorts) (port : Nat) : Bool :=
  r.lo ≤ port && port ≤ r.hi

structure Role where
  name : String
  users : List String := []
  allowProxyTypes : List String := []
  portRange : Option RolePorts := none
  allowManage : Bool := true
  allowVisitors : Bool := true
  maxProxies : Nat := 0
  deriving DecidableEq, Repr

def supportedVisitorTypes : List String := ["stcp", "xtcp", "sudp"]

def isVisitorType (ty : String) : Bool :=
  supportedVisitorTypes.contains (toAsciiLowercase (trim ty))

namespace Role

def unrestricted : Role where
  name := "unrestricted"
  users := ["*"]

def matchesUser (role : Role) (user : String) : Bool :=
  role.users.any fun u => u == "*" || u == user

def allowProxyType (role : Role) (ty : String) : Bool :=
  role.allowProxyTypes.isEmpty || role.allowProxyTypes.any fun t => toAsciiLowercase t == toAsciiLowercase ty

def allowPort (role : Role) (port : Nat) : Bool :=
  role.portRange.all fun r => r.contains port

end Role

structure CompiledRbac where
  roles : List Role := []
  defaultRole : String := ""
  denyUnknown : Bool := false

/-- Without roles, and where nothing else is said, everything is allowed. -/
def CompiledRbac.roleFor (rbac : CompiledRbac) (user : String) : Except String Role :=
  if rbac.roles.isEmpty then .ok .unrestricted
  else
    match rbac.roles.find? (·.matchesUser user) with
    | some role => .ok role
    | none =>
      if rbac.defaultRole ≠ "" then
        match rbac.roles.find? (·.name = rbac.defaultRole) with
        | some role => .ok role
        | none => .error s!"defaultRole = {rbac.defaultRole.quote} 在 [[roles]] 里不存在"
      else if rbac.denyUnknown then .error s!"用户 {user.quote} 没有匹配到任何角色（denyUnknown = true）"
      else .ok .unrestricted

inductive Refusal where
  | proxyType (role ty : String) (allowed : List String)
  | port (role : String) (port : Nat) (range : Option RolePorts)
  | visitors (role name : String)
  | maxProxies (role : String) (limit used : Nat)
  | allowPorts (port : Nat)
  | maxPorts (used limit : Int)
  | slot (limit : Nat)
  | other (reason : String)
  deriving DecidableEq

def Refusal.OfLimits : Refusal → Prop
  | proxyType .. | port .. | visitors .. | maxProxies .. | allowPorts .. | maxPorts .. => True
  | slot _ | other _ => False

def isPortType (ty : String) : Bool :=
  toAsciiLowercase ty == "tcp" || toAsciiLowercase ty == "udp"

/-- `usedProxies` is what the client has registered by now. -/
def checkProxy (role : Role) (name ty : String) (port usedProxies : Nat) : Except Refusal Unit :=
  if ¬role.allowProxyType (toAsciiLowercase ty) then .error (.proxyType role.name ty role.allowProxyTypes)
  else if isPortType ty ∧ port ≠ 0 ∧ ¬role.allowPort port then .error (.port role.name port role.portRange)
  else if ¬role.allowVisitors ∧ isVisitorType (toAsciiLowercase ty) then .error (.visitors role.name name)
  else if 0 < role.maxProxies ∧ role.maxProxies ≤ usedProxies then
    .error (.maxProxies role.name role.maxProxies usedProxies)
  else .ok ()

structure Role.Allows (role : Role) (ty : String) (port : Nat) : Prop where
  proxyType : role.allowProxyType (toAsciiLowercase ty)
  port : isPortType ty → port ≠ 0 → role.allowPort port
  visitors : isVisitorType (toAsciiLowercase ty) → role.allowVisitors

theorem checkProxy_eq_ok_iff {role : Role} {name ty : String} {port usedProxies : Nat} :
    checkProxy role name ty port usedProxies = .ok () ↔
      role.Allows ty port ∧ (role.maxProxies = 0 ∨ usedProxies < role.maxProxies) := by
  rw [checkProxy]
  constructor
  · intro passed
    split at passed
    next => cases passed
    next allowed =>
      split at passed
      next => cases passed
      next inRange =>
        split at passed
        next => cases passed
        next noVisitor =>
          split at passed
          next => cases passed
          next room =>
            refine ⟨⟨not_not.mp allowed, ?_, ?_⟩, by omega⟩
            · intro takesPort given
              by_contra outside
              exact inRange ⟨takesPort, given, outside⟩
            · intro isVisitor
              by_contra forbidden
              exact noVisitor ⟨forbidden, isVisitor⟩
  · rintro ⟨allows, room⟩
    rw [if_neg (not_not.mpr allows.proxyType)]
    rw [if_neg (fun outside => outside.2.2 (allows.port outside.1 outside.2.1))]
    rw [if_neg (fun forbidden => forbidden.1 (allows.visitors forbidden.2)), if_neg (by omega)]

theorem checkProxy_eq_error {role : Role} {name ty : String} {port usedProxies : Nat} {r : Refusal}
    (refused : checkProxy role name ty port usedProxies = .error r) :
    ¬role.Allows ty port ∨ r = .maxProxies role.name role.maxProxies usedProxies ∧ 0 < role.maxProxies ∧
      role.maxProxies ≤ usedProxies := by
  by_cases allows : role.Allows ty port
  · rw [checkProxy, if_neg (not_not.mpr allows.proxyType),
      if_neg (fun outside => outside.2.2 (allows.port outside.1 outside.2.1)),
      if_neg (fun forbidden => forbidden.1 (allows.visitors forbidden.2))] at refused
    split at refused
    next full => exact .inr ⟨(Except.error.inj refused).symm, full⟩
    next => cases refused
  · exact .inl allows

end Nfrp
