import Nfrp.Client.Table

/-!
# Commands of the server

The dashboard of the server adds and removes proxies of a client.  Proxies of the
configuration are out of its reach; what it adds is checked and kept in the store.
-/

namespace Nfrp.Client

open Lib

/-- `proxy` is what the proxy of the command reads as. -/
structure ServerCmd where
  id : String := ""
  op : String
  proxyName : String := ""
  proxy : Except String ProxyConfig := .error "add_proxy 缺少 proxy 配置"

/-- An empty error is success. -/
structure ServerCmdResp where
  id : String
  op : String
  proxyName : String
  error : String
  deriving DecidableEq, Repr

def cmdAddProxy : String := "add_proxy"

def cmdRemoveProxy : String := "remove_proxy"

section

variable (proxies : ProxyTable) (store : Store) (cmd : ServerCmd)

def addProxyCmd : Except String (ProxyTable × Store) :=
  match cmd.proxy with
  | .error e => .error e
  | .ok p =>
    if p.name = "" then .error "代理配置缺少 name"
    else if p.proxyType = "" then .error "代理配置缺少 type"
    else
      match validateRemoteProxy p true with
      | .error e => .error ("服务端下发的代理配置未通过校验：protocol error: " ++ e)
      | .ok _ =>
        match proxies.insertDynamic p with
        | .error e => .error e
        | .ok (_, proxies) => .ok (proxies, store.put p)

/-- The proxy with the name given is looked for first, then the one with that
name less the user. -/
def findRemoved (user : String) : String × Except String (Option ProxyConfig × ProxyTable) :=
  let requested := cmd.proxyName
  let bare := stripUserPrefix user requested
  match proxies.removeDynamic requested, proxies.removeDynamic bare with
  | .ok (none, table), .ok (none, _) => (requested, .ok (none, table))
  | .ok (none, table), again => if bare = requested then (requested, .ok (none, table)) else (bare, again)
  | removed, _ => (requested, removed)

def removeProxyCmd (user : String) : Except String (ProxyTable × Store) :=
  let requested := cmd.proxyName
  let (name, removed) := findRemoved proxies cmd user
  if requested = "" then .error "remove_proxy 缺少 proxy_name"
  else
    match removed with
    | .error e => .error e
    | .ok (none, _) =>
      let present := ", ".intercalate proxies.names
      .error ("本地没有名为 [" ++ requested ++ "] 的代理（当前有：" ++ (if present = "" then "无" else present) ++ "）")
    | .ok (some _, proxies) => .ok (proxies, store.remove name)

def execServerCmd (user : String) : Except String (ProxyTable × Store) :=
  if cmd.op = cmdAddProxy then addProxyCmd proxies store cmd
  else if cmd.op = cmdRemoveProxy then removeProxyCmd proxies store cmd user
  else .error ("未知命令：" ++ cmd.op)

def applyServerCmd (user : String) : ServerCmdResp × ProxyTable × Store :=
  match execServerCmd proxies store cmd user with
  | .ok (proxies, store) => (⟨cmd.id, cmd.op, cmd.proxyName, ""⟩, proxies, store)
  | .error e => (⟨cmd.id, cmd.op, cmd.proxyName, e⟩, proxies, store)

end

inductive Edit where
  | add (p : ProxyConfig)
  | remove (name : String)
  deriving DecidableEq, Repr

namespace Edit

def name : Edit → String
  | .add p => p.name
  | .remove name => name

def left : Edit → Option ProxyConfig
  | .add p => some p
  | .remove _ => none

end Edit

def ServerCmd.edit (cmd : ServerCmd) (proxies : ProxyTable) (user : String) : Option Edit :=
  if cmd.op = cmdAddProxy then cmd.proxy.toOption.map .add
  else if cmd.op = cmdRemoveProxy then some (.remove (findRemoved proxies cmd user).1)
  else none

/-- What a command that succeeds changes, and what it leaves alone. -/
structure Commanded (before : ProxyTable) (edit : Edit) (after : ProxyTable) : Prop where
  notConfig : before.originOf edit.name ≠ some .config
  passed : ∀ p, edit = .add p → validateRemoteProxy p true = .ok ()
  lookup : ∀ name, after.lookup name =
    if name = edit.name then edit.left.map (⟨·, .dynamic⟩) else before.lookup name

variable {proxies after : ProxyTable} {store stored : Store} {cmd : ServerCmd} {user : String}

theorem addProxyCmd_eq_ok (done : addProxyCmd proxies store cmd = .ok (after, stored)) :
    ∃ p, cmd.proxy = .ok p ∧ Commanded proxies (.add p) after := by
  rw [addProxyCmd] at done
  split at done
  · cases done
  next p isProxy =>
    split at done
    · cases done
    split at done
    · cases done
    split at done
    · cases done
    next passed =>
      split at done
      · cases done
      next _ old table inserted =>
        obtain ⟨rfl, -⟩ := Prod.mk.inj (Except.ok.inj done)
        obtain ⟨notConfig, lookup⟩ := ProxyTable.insertDynamic_eq_ok inserted
        exact ⟨p, isProxy, notConfig, fun _ same => Edit.add.inj same ▸ passed, lookup⟩

theorem findRemoved_snd (proxies : ProxyTable) (cmd : ServerCmd) (user : String) :
    (findRemoved proxies cmd user).2 = proxies.removeDynamic (findRemoved proxies cmd user).1 := by
  simp only [findRemoved]
  split
  next given _ => rw [given]
  next given _ =>
    split
    · rw [given]
    · rfl
  · rfl

/-- Another name is looked for only where there is nothing under the one that was given. -/
theorem findRemoved_requested (proxies : ProxyTable) (cmd : ServerCmd) (user : String) :
    (findRemoved proxies cmd user).1 = cmd.proxyName ∨ proxies.lookup cmd.proxyName = none := by
  simp only [findRemoved]
  split
  · exact .inl rfl
  next given _ =>
    split
    · exact .inl rfl
    · have absent := (ProxyTable.removeDynamic_eq_ok given).2.1
      rw [ProxyTable.get, eq_comm, Option.map_eq_none_iff] at absent
      exact .inr absent
  · exact .inl rfl

theorem removeProxyCmd_eq_ok (done : removeProxyCmd proxies store cmd user = .ok (after, stored)) :
    Commanded proxies (.remove (findRemoved proxies cmd user).1) after := by
  simp only [removeProxyCmd] at done
  split at done
  · cases done
  split at done
  · cases done
  · cases done
  next _ p table removed =>
    obtain ⟨rfl, -⟩ := Prod.mk.inj (Except.ok.inj done)
    rw [findRemoved_snd] at removed
    obtain ⟨notConfig, -, lookup⟩ := ProxyTable.removeDynamic_eq_ok removed
    exact ⟨notConfig, fun _ same => (nomatch same), lookup⟩

/-- A command that succeeds makes the edit it asks for, of what did not come from
the configuration. -/
theorem execServerCmd_eq_ok (done : execServerCmd proxies store cmd user = .ok (after, stored)) :
    ∃ edit, cmd.edit proxies user = some edit ∧ (∀ p, edit = .add p → cmd.proxy = .ok p) ∧
      Commanded proxies edit after := by
  rw [execServerCmd] at done
  rw [ServerCmd.edit]
  split at done
  next isAdd =>
    obtain ⟨p, isProxy, commanded⟩ := addProxyCmd_eq_ok done
    refine ⟨.add p, ?_, fun _ same => Edit.add.inj same ▸ isProxy, commanded⟩
    rw [if_pos isAdd, isProxy]
    rfl
  next notAdd =>
    split at done
    next isRemove =>
      refine ⟨.remove _, ?_, fun _ same => Edit.noConfusion same, removeProxyCmd_eq_ok done⟩
      rw [if_neg notAdd, if_pos isRemove]
    · cases done

def ServerCmd.made (cmd : ServerCmd) (proxies : ProxyTable) (store : Store) (user : String) : Option Edit :=
  match execServerCmd proxies store cmd user with
  | .ok _ => cmd.edit proxies user
  | .error _ => none

theorem applyServerCmd_cases (proxies : ProxyTable) (store : Store) (cmd : ServerCmd) (user : String) :
    (cmd.made proxies store user = none ∧ (applyServerCmd proxies store cmd user).2.1 = proxies) ∨
      ∃ edit, cmd.made proxies store user = some edit ∧ (∀ p, edit = .add p → cmd.proxy = .ok p) ∧
        Commanded proxies edit (applyServerCmd proxies store cmd user).2.1 := by
  rw [applyServerCmd, ServerCmd.made]
  cases done : execServerCmd proxies store cmd user with
  | ok kept =>
    obtain ⟨after, stored⟩ := kept
    exact .inr (execServerCmd_eq_ok done)
  | error _ => exact .inl ⟨rfl, rfl⟩

theorem execServerCmd_ne_empty {error : String} (readable : ∀ e, cmd.proxy = .error e → e ≠ "")
    (failed : execServerCmd proxies store cmd user = .error error) : error ≠ "" := by
  have appended : ∀ {first second : String}, first ≠ "" → first ++ second ≠ "" :=
    fun given empty => given (String.append_eq_empty_iff.mp empty).1
  rw [execServerCmd] at failed
  split at failed
  · rw [addProxyCmd] at failed
    split at failed
    next unreadable => exact Except.error.inj failed ▸ readable _ unreadable
    split at failed
    · exact Except.error.inj failed ▸ (by decide)
    split at failed
    · exact Except.error.inj failed ▸ (by decide)
    split at failed
    · exact Except.error.inj failed ▸ appended (by decide)
    split at failed
    next refused =>
      rw [ProxyTable.insertDynamic] at refused
      split at refused
      · rw [← Except.error.inj failed, ← Except.error.inj refused, String.append_assoc]
        exact appended (by decide)
      · cases refused
    · cases failed
  split at failed
  · simp only [removeProxyCmd] at failed
    split at failed
    · exact Except.error.inj failed ▸ (by decide)
    split at failed
    next refused =>
      rw [findRemoved_snd, ProxyTable.removeDynamic] at refused
      split at refused
      · rw [← Except.error.inj failed, ← Except.error.inj refused, String.append_assoc]
        exact appended (by decide)
      · cases refused
    · rw [← Except.error.inj failed, String.append_assoc, String.append_assoc, String.append_assoc]
      exact appended (by decide)
    · cases failed
  · exact Except.error.inj failed ▸ appended (by decide)

theorem applyServerCmd_answers (proxies : ProxyTable) (store : Store) (cmd : ServerCmd) (user : String) :
    let answer := (applyServerCmd proxies store cmd user).1
    answer.id = cmd.id ∧ answer.op = cmd.op ∧ answer.proxyName = cmd.proxyName := by
  rw [applyServerCmd]
  split
  · exact ⟨rfl, rfl, rfl⟩
  · exact ⟨rfl, rfl, rfl⟩

end Nfrp.Client
