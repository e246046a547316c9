/-
  The controller — the control server (controller.py, `ControlServer`).

  The server answers authenticated requests one after another.  `prepare_confirmation`
  issues a nonce for an action; a request for the action with that nonce is passed to
  the action handler, once, and its response is kept under the request ID.  A request
  that raises something the server does not catch ends its thread.

  * `justified_call`: every call of the handler goes back to a nonce issued for its
    action at most a minute before, and not used since.
  * `confirmed_once`: calls go back to distinct nonces, none is made for a request ID
    with a stored response, and that is what later requests get.
-/
import Mathlib.Logic.Function.Basic
import TodDl.Controller.Control

namespace TodDl.Controller

open Provenance (PyVal Key)
open Store (Db Row Request Clock Outcome itemIds intInRange retryableStatuses)

/-! ## Requests -/

/-- The actions that need a confirmation. -/
inductive Command where
  | control (a : ControlAction)
  | renewTorCircuits
  deriving DecidableEq

/-- The name of an action in a request. -/
def Command.name : Command → String
  | .control .retryNow => "retry_now"
  | .control .excludeItem => "exclude_item"
  | .control .resumeNewGeneration => "resume_new_generation"
  | .control .retryAccessDenied => "retry_access_denied"
  | .control .setItemPriority => "set_item_priority"
  | .control .setRetryCooldown => "set_retry_cooldown"
  | .renewTorCircuits => "renew_tor_circuits"
  | .control .pauseAdmission => "pause_admission"
  | .control .resumeAdmission => "resume_admission"
  | .control .drainAndStop => "drain_and_stop"
  | .control .checkpointStop => "checkpoint_stop"

def commands : List Command :=
  [.control .retryNow, .control .excludeItem, .control .resumeNewGeneration,
   .control .retryAccessDenied, .control .setItemPriority, .control .setRetryCooldown,
   .renewTorCircuits, .control .pauseAdmission, .control .resumeAdmission,
   .control .drainAndStop, .control .checkpointStop]

/-- The action that a value names. -/
def Command.ofValue : PyVal → Option Command
  | .str s => commands.find? fun c => c.name = s
  | _ => none

/-- The value can be looked up in a set; lists and objects raise `TypeError`. -/
def hashable : PyVal → Bool
  | .list _ | .dict _ => false
  | _ => true

/-- A string as a key. -/
def strKey : PyVal → Option Key
  | .str s => some (.str s)
  | .badStr codes => some (.badStr codes)
  | _ => none

/-- A request whose checks of version, run, session and token passed. -/
structure Authenticated where
  items : List (Key × PyVal)
  requestId : Key
  hasId : strKey (PyVal.get (.dict items) "request_id") = some requestId

namespace Authenticated
variable (q : Authenticated)

/-- `request.get(name)` -/
def get (name : String) : PyVal := PyVal.get (.dict q.items) name

/-- `request.get("parameters")`, if it is an object. -/
def parameters : Option (List (Key × PyVal)) :=
  match q.get "parameters" with
  | .dict items => some items
  | _ => none

end Authenticated

/-- A request with what its handling reads: the clock, a fresh token, the state of the
    controller, and what the action handler answers; none if that raises. -/
structure Turn where
  request : Authenticated
  clock : ℚ
  token : String
  state : PyVal
  answer : Option PyVal

/-! ## The server -/

/-- What a nonce confirms. -/
structure Prepared where
  action : Command
  deadline : ℚ
  itemIds : Option (List PyVal) := none
  priority : Option ℤ := none
  cooldown : Option ℤ := none

structure ControlServer where
  confirmations : Key → Option Prepared := fun _ => none
  completed : Key → Option PyVal := fun _ => none
  /-- whether there is an action handler -/
  attached : Bool := true
  /-- whether its thread runs -/
  alive : Bool := true

/-- What became of a request: the response, if there was one, and what it did on the way. -/
structure Handled where
  server : ControlServer
  response : Option PyVal
  /-- the nonce that was issued -/
  prepared : Option (Key × Prepared) := none
  /-- the nonce that was taken from the table, or would have been -/
  used : Option Key := none
  /-- what the action handler was called with -/
  call : Option (List (Key × PyVal)) := none

/-- A key as a value. -/
def keyValue : Key → PyVal
  | .str s => .str s
  | .badStr codes => .badStr codes
  | .other repr => .other repr

/-- The response to a request that is rejected. -/
def rejection (id : Key) (reason : String) : PyVal :=
  .dict [(.str "request_id", keyValue id), (.str "outcome", .str "rejected"), (.str "reason", .str reason)]

namespace ControlServer
variable (s : ControlServer) (t : Turn)

/-- A `ControlError`. -/
def reject (reason : String) : Handled :=
  ⟨s, some (rejection t.request.requestId reason), none, none, none⟩

/-- An exception that nothing catches. -/
def crash : Handled := ⟨{ s with alive := false }, none, none, none, none⟩

/-- The six actions on items. -/
def onItems : Command → Bool
  | .control .retryNow | .control .excludeItem | .control .resumeNewGeneration
  | .control .retryAccessDenied | .control .setItemPriority | .control .setRetryCooldown => true
  | _ => false

/-- The `item_ids` of a confirmation: needed by all actions on items but `retry_now`. -/
def prepareIds (action : Command) (parameters : List (Key × PyVal)) :
    Except String (Option (List PyVal)) :=
  if onItems action && (action ≠ .control .retryNow ||
      (Provenance.lookup "item_ids" parameters).isSome) then
    match PyVal.get (.dict parameters) "item_ids" with
    | .list ids => if (itemIds (.list ids)).isSome then .ok (some ids) else .error Store.invalidItemIds
    | _ => .error Store.invalidItemIds
  else .ok none

/-- The integer that one action needs. -/
def prepareInt (needed : Bool) (low high : ℤ) (value : PyVal) (problem : String) :
    Except String (Option ℤ) :=
  if needed then
    match intInRange low high value with
    | some i => .ok (some i)
    | none => .error problem
  else .ok none

/-- What is confirmed with a nonce for an action. -/
def prepare (action : Command) (parameters : List (Key × PyVal)) : Except String Prepared := do
  let ids ← prepareIds action parameters
  let priority ← prepareInt (action = .control .setItemPriority) (-5) 5
    (PyVal.get (.dict parameters) "priority") "priority must be an integer between -5 and 5"
  let cooldown ← prepareInt (action = .control .setRetryCooldown) 0 3600
    (PyVal.get (.dict parameters) "cooldown_s") "cooldown_s must be an integer between 0 and 3600"
  return ⟨action, t.clock + 60, ids, priority, cooldown⟩

/-- The scope that the operator is shown. -/
def scopeText (p : Prepared) : String :=
  let selected := toString (p.itemIds.getD []).length ++ " selected item(s) in the immutable selected run"
  match p.action with
  | .control .retryNow =>
    if p.itemIds.isSome then selected else "retryable items in the immutable selected run"
  | .control .excludeItem | .control .resumeNewGeneration | .control .retryAccessDenied
  | .control .setItemPriority | .control .setRetryCooldown => selected
  | .control .pauseAdmission | .control .resumeAdmission | .control .drainAndStop
  | .control .checkpointStop => "the immutable selected run's admission and active transfers"
  | .renewTorCircuits => "future Tor streams only"

/-- `_prepare_confirmation(request_id, parameters)` -/
def prepareConfirmation : Handled :=
  match t.request.parameters with
  | none => s.reject t "confirmation parameters must be an object"
  | some parameters =>
    let value := PyVal.get (.dict parameters) "action"
    if !hashable value then s.crash
    else match Command.ofValue value with
      | none => s.reject t "action is unavailable"
      | some action => match prepare t action parameters with
        | .error reason => s.reject t reason
        | .ok p =>
          { server := { s with
              confirmations := Function.update s.confirmations (.str t.token) (some p) }
            response := some (.dict [(.str "request_id", keyValue t.request.requestId),
              (.str "outcome", .str "completed"),
              (.str "confirmation", .dict [(.str "nonce", .str t.token),
                (.str "action", .str action.name), (.str "expires_in_s", .int 60),
                (.str "scope", .str (scopeText p))])])
            prepared := some (.str t.token, p) }

/-- The parameters that the handler receives: what was prepared replaces what was sent. -/
def confirmedParameters (parameters : List (Key × PyVal)) (p : Prepared) : List (Key × PyVal) :=
  let withIds := match p.itemIds with
    | some ids => Provenance.insert (.str "item_ids") (.list ids) parameters
    | none => parameters
  let withPriority := match p.priority with
    | some i => Provenance.insert (.str "priority") (.int i) withIds
    | none => withIds
  match p.cooldown with
  | some i => Provenance.insert (.str "cooldown_s") (.int i) withPriority
  | none => withPriority

/-- The value is one of the outcomes a handler may answer with. -/
def isOutcome : PyVal → Bool
  | .str s => s ∈ ["completed", "rejected", "failed"]
  | _ => false

/-- `_confirmed_action(action, request_id, parameters, request)` -/
def confirmedAction (action : Command) : Handled :=
  match t.request.parameters with
  | none => s.reject t (action.name ++ " parameters must be an object")
  | some parameters => match s.completed t.request.requestId with
    | some response => ⟨s, some response, none, none, none⟩
    | none =>
      let nonce := strKey (PyVal.get (.dict parameters) "nonce")
      let prepared := nonce.bind s.confirmations
      let popped := match nonce with
        | some n => { s with confirmations := Function.update s.confirmations n none }
        | none => s
      match prepared.filter fun p => p.action = action && decide (t.clock ≤ p.deadline) &&
          Command.ofValue (PyVal.get (.dict parameters) "confirmation") = some action with
      | none => { popped.reject t (action.name ++ " confirmation is invalid or expired") with
          used := nonce }
      | some p =>
        let request := Provenance.insert (.str "parameters")
          (.dict (confirmedParameters parameters p)) t.request.items
        let handled : Handled := match t.answer with
          | none => popped.crash
          | some (.dict items) =>
            let outcome := PyVal.get (.dict items) "outcome"
            if !hashable outcome then popped.crash
            else if !isOutcome outcome then
              popped.reject t ("controller returned an invalid " ++ action.name ++ " outcome")
            else
              let response := PyVal.dict (items.foldl (fun acc p => Provenance.insert p.1 p.2 acc)
                [(.str "request_id", keyValue t.request.requestId)])
              ⟨{ popped with completed :=
                  Function.update popped.completed t.request.requestId (some response) },
                some response, none, none, none⟩
          | some _ => popped.reject t ("controller returned an invalid " ++ action.name ++ " outcome")
        { handled with used := nonce, call := some request }

/-- `_handle(connection)` after the checks; the thread answers while it runs. -/
def handle : Handled :=
  if !s.alive then ⟨s, none, none, none, none⟩
  else match t.request.get "action" with
    | .str "get_control_state" => ⟨s, some (.dict [(.str "request_id", keyValue t.request.requestId),
        (.str "outcome", .str "completed"), (.str "control_state", t.state)]), none, none, none⟩
    | .str "prepare_confirmation" => s.prepareConfirmation t
    | value =>
      if !hashable value then s.crash
      else match Command.ofValue value with
        | some action =>
          if s.attached then s.confirmedAction t action else s.reject t "action is unavailable"
        | none => s.reject t "action is unavailable"

/-- The server after some requests. -/
def run (turns : List Turn) : ControlServer := turns.foldl (fun s t => (s.handle t).server) s

/-- The requests of a run with what became of each. -/
def log : ControlServer → List Turn → List (Turn × Handled)
  | _, [] => []
  | s, t :: turns => (t, s.handle t) :: log (s.handle t).server turns

/-! ## One request -/

/-- A request asks for a confirmation. -/
structure Asks (t : Turn) (p : Prepared) : Prop where
  action : t.request.get "action" = .str "prepare_confirmation"
  prepared : ∃ parameters, t.request.parameters = some parameters ∧
    Command.ofValue (PyVal.get (.dict parameters) "action") = some p.action ∧
      prepare t p.action parameters = .ok p

/-- What a request does to the tables. -/
inductive Does (s : ControlServer) (t : Turn) (h : Handled) : Prop where
  /-- it issues a nonce -/
  | issues (n : Key) (p : Prepared) (hprepared : h.prepared = some (n, p)) (hused : h.used = none)
      (hcall : h.call = none) (hasks : Asks t p)
      (hserver : h.server.confirmations = Function.update s.confirmations n (some p))
      (hcompleted : h.server.completed = s.completed) (hattached : h.server.attached = s.attached)
  /-- it uses a nonce up -/
  | uses (n : Key) (hprepared : h.prepared = none) (hused : h.used = some n)
      (hserver : h.server.confirmations = Function.update s.confirmations n none)
      (hcompleted : h.server.completed = s.completed ∨
        s.completed t.request.requestId = none ∧ h.call.isSome ∧ ∃ response, h.response = some response ∧
          h.server.completed = Function.update s.completed t.request.requestId (some response))
      (hattached : h.server.attached = s.attached)
  | neither (hprepared : h.prepared = none) (hused : h.used = none) (hcall : h.call = none)
      (hserver : h.server.confirmations = s.confirmations)
      (hcompleted : h.server.completed = s.completed) (hattached : h.server.attached = s.attached)

/-- When the handler is called, and with what. -/
structure Passes (s : ControlServer) (t : Turn) (q : List (Key × PyVal)) (n : Key) (p : Prepared) :
    Prop where
  attached : s.attached = true
  action : Command.ofValue (t.request.get "action") = some p.action
  confirmed : s.confirmations n = some p
  fresh : t.clock ≤ p.deadline
  new : s.completed t.request.requestId = none
  request : ∃ parameters, t.request.parameters = some parameters ∧
    q = Provenance.insert (.str "parameters") (.dict (confirmedParameters parameters p)) t.request.items

section
variable {s : ControlServer} {t : Turn} {action : Command}

theorem does_reject (reason : String) : s.Does t (s.reject t reason) :=
  .neither rfl rfl rfl rfl rfl rfl

theorem does_crash : s.Does t s.crash := .neither rfl rfl rfl rfl rfl rfl

theorem prepareIds_eq_none {parameters : List (Key × PyVal)}
    (h : prepareIds action parameters = .ok none) (hitems : onItems action = true) :
    action = .control .retryNow := by
  by_contra hne
  rw [prepareIds, if_pos (by simp [hitems, hne])] at h
  split at h
  · split at h <;> cases h
  · cases h

theorem prepare_eq_ok {parameters : List (Key × PyVal)} {p : Prepared}
    (h : prepare t action parameters = .ok p) : p.deadline = t.clock + 60 ∧ p.action = action ∧
      (p.itemIds = none → onItems action = true → action = .control .retryNow) := by
  simp only [prepare, bind, Except.bind] at h
  cases hids : prepareIds action parameters with
  | error reason => rw [hids] at h; cases h
  | ok ids =>
    rw [hids] at h
    dsimp only at h
    split at h
    · cases h
    · split at h
      · cases h
      · obtain rfl := Except.ok.inj h
        exact ⟨rfl, rfl, fun hnone => prepareIds_eq_none (hids.trans (congrArg _ hnone))⟩

theorem does_prepareConfirmation (h : t.request.get "action" = .str "prepare_confirmation") :
    s.Does t (s.prepareConfirmation t) := by
  unfold prepareConfirmation
  split
  · exact does_reject _
  · next parameters hparameters =>
    dsimp only
    split
    · exact does_crash
    · split
      · exact does_reject _
      · next action hvalue =>
        split
        · exact does_reject _
        · next p hp =>
          obtain ⟨-, rfl, -⟩ := prepare_eq_ok hp
          exact .issues _ p rfl rfl rfl ⟨h, parameters, hparameters, hvalue, hp⟩ rfl rfl rfl

theorem does_confirmedAction : s.Does t (s.confirmedAction t action) := by
  unfold confirmedAction
  split
  · exact does_reject _
  · next parameters hparameters =>
    split
    · exact .neither rfl rfl rfl rfl rfl rfl
    · next hnew =>
      dsimp only
      cases hnonce : strKey (PyVal.get (.dict parameters) "nonce") with
      | none => exact .neither rfl rfl rfl rfl rfl rfl
      | some n =>
        dsimp only
        split
        · exact .uses n rfl rfl rfl (.inl rfl) rfl
        · cases t.answer with
          | none => exact .uses n rfl rfl rfl (.inl rfl) rfl
          | some v =>
            cases v with
            | dict items =>
              dsimp only
              split
              · exact .uses n rfl rfl rfl (.inl rfl) rfl
              · split
                · exact .uses n rfl rfl rfl (.inl rfl) rfl
                · exact .uses n rfl rfl rfl (.inr ⟨hnew, rfl, _, rfl, rfl⟩) rfl
            | null | bool | int | float | str | badStr | list | other =>
              exact .uses n rfl rfl rfl (.inl rfl) rfl

/-- **What a request does**: it issues a nonce, uses one up, or neither. -/
theorem does_handle : s.Does t (s.handle t) := by
  unfold handle
  split
  · exact .neither rfl rfl rfl rfl rfl rfl
  · split
    · exact .neither rfl rfl rfl rfl rfl rfl
    · next h => exact does_prepareConfirmation h
    · split
      · exact does_crash
      · split
        · split
          · exact does_confirmedAction
          · exact does_reject _
        · exact does_reject _

theorem passes_confirmedAction {q : List (Key × PyVal)} (hattached : s.attached = true)
    (hvalue : Command.ofValue (t.request.get "action") = some action)
    (h : (s.confirmedAction t action).call = some q) :
    ∃ n p, (s.confirmedAction t action).used = some n ∧ s.Passes t q n p := by
  unfold confirmedAction at h ⊢
  split at h
  · cases h
  · next parameters hparameters =>
    split at h
    · cases h
    · next hnew =>
      dsimp only at h ⊢
      split at h
      · cases h
      · next p hp =>
        obtain ⟨hconfirmed, hchecks⟩ := Option.filter_eq_some_iff.1 hp
        obtain ⟨n, hnonce, hconfirmed⟩ := Option.bind_eq_some_iff.1 hconfirmed
        simp only [Bool.and_eq_true, decide_eq_true_eq] at hchecks
        obtain ⟨⟨rfl, hfresh⟩, -⟩ := hchecks
        exact ⟨n, p, hnonce, hattached, hvalue, hconfirmed, hfresh, hnew, parameters, hparameters,
          (Option.some.inj h).symm⟩

theorem call_prepareConfirmation : (s.prepareConfirmation t).call = none := by
  unfold prepareConfirmation
  split
  · rfl
  · dsimp only
    split
    · rfl
    · split
      · rfl
      · split <;> rfl

theorem value_of_ofValue {value : PyVal} (h : Command.ofValue value = some action) :
    value = .str action.name := by
  unfold Command.ofValue at h
  split at h
  · have hname := List.find?_some h
    rw [of_decide_eq_true hname]
  · cases h

/-- A request for an action. -/
theorem handle_command (halive : s.alive = true) (hattached : s.attached = true)
    (hvalue : Command.ofValue (t.request.get "action") = some action) :
    s.handle t = s.confirmedAction t action := by
  have hname := value_of_ofValue hvalue
  rw [hname] at hvalue
  unfold handle
  rw [halive, hname, hattached]
  simp only [Bool.not_true, Bool.false_eq_true, if_false, hashable, if_true]
  cases action with
  | renewTorCircuits => rfl
  | control a => cases a <;> rfl

/-- **What a call of the handler goes back to.** -/
theorem passes_handle {q : List (Key × PyVal)} (h : (s.handle t).call = some q) :
    ∃ n p, (s.handle t).used = some n ∧ s.Passes t q n p := by
  by_cases hcommand : s.alive = true ∧ s.attached = true ∧
      ∃ action, Command.ofValue (t.request.get "action") = some action
  · obtain ⟨halive, hattached, action, hvalue⟩ := hcommand
    rw [handle_command halive hattached hvalue] at h ⊢
    exact passes_confirmedAction hattached hvalue h
  · unfold handle at h
    split at h
    · cases h
    · next halive =>
      split at h
      · cases h
      · rw [call_prepareConfirmation] at h
        cases h
      · split at h
        · cases h
        · split at h
          · next action hvalue =>
            split at h
            · next hattached =>
              exact absurd ⟨by simpa using halive, hattached, action, by assumption⟩ hcommand
            · cases h
          · cases h

/-- A response that is stored is given again. -/
theorem handle_replay {response : PyVal} (halive : s.alive = true) (hattached : s.attached = true)
    (hvalue : Command.ofValue (t.request.get "action") = some action)
    (hparameters : t.request.parameters.isSome)
    (hstored : s.completed t.request.requestId = some response) :
    s.handle t = ⟨s, some response, none, none, none⟩ := by
  obtain ⟨parameters, hparameters⟩ := Option.isSome_iff_exists.1 hparameters
  rw [handle_command halive hattached hvalue, confirmedAction, hparameters]
  dsimp only
  rw [hstored]

end

/-! ## Runs -/

section
variable {s : ControlServer} {turns : List Turn} {t : Turn}

theorem run_concat : s.run (turns ++ [t]) = ((s.run turns).handle t).server := by
  rw [run, List.foldl_append]
  rfl

theorem log_concat : s.log (turns ++ [t]) = s.log turns ++ [(t, (s.run turns).handle t)] := by
  induction turns generalizing s with
  | nil => rfl
  | cons u turns ih =>
    rw [List.cons_append, log, ih]
    rfl

@[simp] theorem length_log : (s.log turns).length = turns.length := by
  induction turns generalizing s with
  | nil => rfl
  | cons u turns ih => rw [log, List.length_cons, ih, List.length_cons]

theorem log_take (i : ℕ) : s.log (turns.take i) = (s.log turns).take i := by
  induction turns generalizing s i with
  | nil => simp [log]
  | cons u turns ih =>
    cases i with
    | zero => rfl
    | succ i => rw [List.take_succ_cons, log, ih, log, List.take_succ_cons]

theorem log_getElem? {i : ℕ} {h : Handled} (hi : (s.log turns)[i]? = some (t, h)) :
    h = (s.run (turns.take i)).handle t := by
  induction turns generalizing s i with
  | nil => simp [log] at hi
  | cons u turns ih =>
    cases i with
    | zero =>
      obtain ⟨rfl, rfl⟩ := Prod.mk.inj (Option.some.inj hi)
      rfl
    | succ i => exact ih hi

/-- A nonce was issued and not used since. -/
structure Outstanding (log : List (Turn × Handled)) (n : Key) (p : Prepared) (j : ℕ) : Prop where
  issued : ∃ e, log[j]? = some e ∧ e.2.prepared = some (n, p) ∧ Asks e.1 p
  unused : ∀ k e, j < k → log[k]? = some e → e.2.used ≠ some n

theorem Outstanding.concat {log : List (Turn × Handled)} {n : Key} {p : Prepared} {j : ℕ}
    {last : Turn × Handled} (h : Outstanding log n p j) (hlast : last.2.used ≠ some n) :
    Outstanding (log ++ [last]) n p j where
  issued := by
    obtain ⟨e, he, hprepared, hasks⟩ := h.issued
    exact ⟨e, List.getElem?_append_left (List.getElem?_eq_some_iff.1 he).1 ▸ he, hprepared, hasks⟩
  unused k e hk he := by
    rw [List.getElem?_append] at he
    split at he
    · exact h.unused k e hk he
    · rcases Nat.eq_zero_or_pos (k - log.length) with hzero | hpos
      · rw [hzero] at he
        obtain rfl := Option.some.inj he
        exact hlast
      · rw [List.getElem?_eq_none hpos] at he
        cases he

/-- **Every nonce in the table was issued and not used since.** -/
theorem outstanding_run (hfresh : ∀ n, s.confirmations n = none) {n : Key} {p : Prepared}
    (h : (s.run turns).confirmations n = some p) : ∃ j, Outstanding (s.log turns) n p j := by
  induction turns using List.reverseRecOn with
  | nil =>
    rw [run, List.foldl_nil, hfresh] at h
    cases h
  | append_singleton turns t ih =>
    rw [run_concat] at h
    rw [log_concat]
    cases @does_handle (s.run turns) t with
    | issues n' p' hprepared hused _ hasks hserver _ _ =>
      rw [hserver] at h
      by_cases hn : n = n'
      · subst hn
        rw [Function.update_self] at h
        obtain rfl := Option.some.inj h
        refine ⟨(s.log turns).length, ⟨_, List.getElem?_concat_length, hprepared, hasks⟩, ?_⟩
        intro k e hk he
        have hlast : (s.log turns ++ [(t, (s.run turns).handle t)]).length ≤ k := by
          rw [List.length_append, List.length_singleton]
          exact hk
        rw [List.getElem?_eq_none hlast] at he
        cases he
      · rw [Function.update_of_ne hn] at h
        obtain ⟨j, hj⟩ := ih h
        exact ⟨j, hj.concat (by simp [hused])⟩
    | uses n' _ hused hserver _ _ =>
      rw [hserver] at h
      by_cases hn : n = n'
      · subst hn
        rw [Function.update_self] at h
        cases h
      · rw [Function.update_of_ne hn] at h
        obtain ⟨j, hj⟩ := ih h
        exact ⟨j, hj.concat (by simpa [hused] using Ne.symm hn)⟩
    | neither _ hused _ hserver _ _ =>
      rw [hserver] at h
      obtain ⟨j, hj⟩ := ih h
      exact ⟨j, hj.concat (by simp [hused])⟩

end

end ControlServer

/-! ## What the handler receives -/

/-- What the handler is given under a name. -/
def sent (q : List (Key × PyVal)) (name : String) : PyVal :=
  PyVal.get (PyVal.get (.dict q) "parameters") name

/-- The request as the controller's handlers read it. -/
def handlerRequest (q : List (Key × PyVal)) : Request where
  requestId := match PyVal.get (.dict q) "request_id" with
    | .str id => some id
    | _ => none
  sessionId := match PyVal.get (.dict q) "session_id" with
    | .str id => some id
    | _ => none
  parameters := PyVal.get (.dict q) "parameters"

/-- The handlers of the actions on items. -/
def itemHandler : ControlAction → Option (Db → String → Request → Clock → Outcome)
  | .retryNow => some Store.controlRetryNow
  | .excludeItem => some Store.controlExcludeItem
  | .resumeNewGeneration => some Store.controlResumeNewGeneration
  | .retryAccessDenied => some Store.controlRetryAccessDenied
  | .setItemPriority => some Store.controlSetItemPriority
  | .setRetryCooldown => some Store.controlSetRetryCooldown
  | .pauseAdmission | .resumeAdmission | .drainAndStop | .checkpointStop => none

/-- The confirmed scope: the items that were prepared, or else every retryable one of the
    run. -/
def Prepared.Covers (p : Prepared) (db : Db) (runId : String) (row : Row) : Prop :=
  row ∈ db.selected runId ∧ match p.itemIds with
    | some ids => PyVal.str (Store.itemId row.url) ∈ ids
    | none => row.status ∈ retryableStatuses

section
variable {db : Db} {runId : String} {clock : Clock} {row : Row}

/-- A commit changes no other row than those it names. -/
theorem changed_of_commits {o : Outcome} {changed : List Row} {u : Store.Update}
    (h : o.Commits db runId changed u) (hrow : row ∈ db.downloads.rows)
    (hdiffers : o.db.downloads.find? row.url ≠ some row) : row ∈ changed := by
  obtain ⟨requestId, sessionId, action, reason, text, hdb⟩ := h.db_eq
  have hfind : db.downloads.find? row.url = some row := Lib.Table.find?_eq_some.2 ⟨hrow, rfl⟩
  rw [hdb, Db.downloads_auditControl, Db.find?_updateWhere, hfind, Option.map_some] at hdiffers
  by_cases hmem : row.url ∈ changed.map (·.url)
  · obtain ⟨r, hr, hurl⟩ := List.mem_map.1 hmem
    have hin : r ∈ db.downloads.rows := (Lib.Table.mem_join.1 (h.selected r hr)).2
    have hr' : db.downloads.find? row.url = some r := Lib.Table.find?_eq_some.2 ⟨hin, hurl⟩
    rw [hfind] at hr'
    exact Option.some.inj hr' ▸ hr
  · rw [if_neg (by simpa using hmem)] at hdiffers
    exact absurd rfl hdiffers

theorem idle_unchanged {o : Outcome} (h : o.Idle db) (hrow : row ∈ db.downloads.rows) :
    o.db.downloads.find? row.url = some row := by
  rw [h.1]
  exact Lib.Table.find?_eq_some.2 ⟨hrow, rfl⟩

/-- The checked IDs are those of the list. -/
theorem mem_of_itemIds {vs : List PyVal} {ids : List Key} {id : String}
    (h : vs.mapM Store.itemIdKey = some ids) (hid : Key.str id ∈ ids) : PyVal.str id ∈ vs := by
  induction vs generalizing ids with
  | nil =>
    obtain rfl : [] = ids := Option.some.inj h
    cases hid
  | cons v vs ih =>
    rw [List.mapM_cons] at h
    obtain ⟨k, hk, h⟩ := Option.bind_eq_some_iff.1 h
    obtain ⟨ks, hks, h⟩ := Option.bind_eq_some_iff.1 h
    obtain rfl : k :: ks = ids := Option.some.inj h
    rcases List.mem_cons.1 hid with rfl | hid
    · -- only the text of the ID has this key
      cases v with
      | str s =>
        simp only [Store.itemIdKey] at hk
        split at hk
        · cases hk
        · obtain ⟨rfl⟩ := Key.str.inj (Option.some.inj hk)
          exact List.mem_cons_self
      | null | bool | int | float | badStr | list | dict | other => cases hk
    · exact List.mem_cons_of_mem _ (ih hks hid)

theorem itemIds_list {vs : List PyVal} {ids : List Key} (h : itemIds (.list vs) = some ids) :
    vs.mapM Store.itemIdKey = some ids := by
  cases vs with
  | nil => cases h
  | cons v vs => exact h

/-- An action on a list of items changes none but those. -/
theorem covers_handle (a : Store.ItemAction) {q : Request} {p : Prepared} {vs : List PyVal}
    (hp : p.itemIds = some vs) (hids : q.parameters.get "item_ids" = .list vs)
    (hrow : row ∈ db.downloads.rows)
    (hdiffers : (a.handle db runId q clock).db.downloads.find? row.url ≠ some row) :
    p.Covers db runId row := by
  rcases a.handle_cases db runId q clock with hidle | ⟨ids, hchecked, hcommits, -⟩
  · exact absurd (idle_unchanged hidle hrow) hdiffers
  · have hmem := changed_of_commits hcommits hrow hdiffers
    refine ⟨(a.mem_changedRows hmem).1, ?_⟩
    rw [hp]
    rw [hids] at hchecked
    obtain ⟨id, hid, hrow⟩ := List.mem_filterMap.1 hmem
    obtain ⟨hbyId, -⟩ := Option.filter_eq_some_iff.1 hrow
    cases id with
    | str id =>
      have hitem := List.find?_some hbyId
      rw [of_decide_eq_true hitem]
      exact mem_of_itemIds (itemIds_list hchecked) hid
    | badStr | other => cases hbyId

theorem retryNow_wanted (q : Request) : (Store.controlRetryNow db runId q clock).Idle db ∨
    ∃ ids changed, Store.optionalItemIds (q.parameters.get "item_ids") = some ids ∧
      (Store.controlRetryNow db runId q clock).Commits db runId changed
        [.nextRetryAt 0, .updatedAt clock.text] ∧
      ∀ r ∈ changed, r.status ∈ retryableStatuses ∧
        ∀ wanted, ids = some wanted → Key.str (Store.itemId r.url) ∈ wanted := by
  unfold Store.controlRetryNow
  split
  · split
    · exact .inl ⟨rfl, rfl, rfl⟩
    · next ids hids =>
      split
      · exact .inl ⟨rfl, rfl, rfl⟩
      · have hcandidate : ∀ r ∈ (db.selected runId).filter fun r => r.status ∈ retryableStatuses,
            r ∈ db.selected runId ∧ r.status ∈ retryableStatuses := fun r hr =>
          ⟨List.mem_of_mem_filter hr, of_decide_eq_true (List.mem_filter.1 hr).2⟩
        cases ids with
        | none =>
          exact .inr ⟨none, _, hids, ⟨⟨_, _, _, _, _, rfl⟩, fun r hr => (hcandidate r hr).1, rfl⟩,
            fun r hr => ⟨(hcandidate r hr).2, nofun⟩⟩
        | some wanted =>
          refine .inr ⟨some wanted, _, hids, ⟨⟨_, _, _, _, _, rfl⟩, fun r hr => ?_, rfl⟩,
            fun r hr => ?_⟩
          · exact (hcandidate r (List.mem_of_mem_filter hr)).1
          · obtain ⟨hr, hwanted⟩ := List.mem_filter.1 hr
            refine ⟨(hcandidate r hr).2, fun wanted' heq => ?_⟩
            obtain rfl := Option.some.inj heq
            exact of_decide_eq_true hwanted
  · exact .inl ⟨rfl, rfl, rfl⟩

/-- `retry_now` changes retryable items only, and if items are named, none but those. -/
theorem covers_retryNow {q : Request} {p : Prepared}
    (hp : ∀ vs, p.itemIds = some vs → q.parameters.get "item_ids" = .list vs)
    (hrow : row ∈ db.downloads.rows)
    (hdiffers : (Store.controlRetryNow db runId q clock).db.downloads.find? row.url ≠ some row) :
    p.Covers db runId row := by
  rcases @retryNow_wanted db runId clock q with hidle | ⟨ids, changed, hids, hcommits, hchanged⟩
  · exact absurd (idle_unchanged hidle hrow) hdiffers
  · have hmem := changed_of_commits hcommits hrow hdiffers
    obtain ⟨hstatus, hwanted⟩ := hchanged row hmem
    refine ⟨hcommits.selected row hmem, ?_⟩
    cases hvs : p.itemIds with
    | none => exact hstatus
    | some vs =>
      rw [hp vs hvs] at hids
      obtain ⟨wanted, hchecked, rfl⟩ := Option.map_eq_some_iff.1 hids
      exact mem_of_itemIds (itemIds_list hchecked) (hwanted wanted rfl)

end

section
variable {q : List (Key × PyVal)} {parameters : List (Key × PyVal)} {p : Prepared}

theorem get_insert_self (name : String) (v : PyVal) :
    PyVal.get (.dict (Provenance.insert (.str name) v parameters)) name = v := by
  rw [PyVal.get, PyVal.items, Provenance.lookup_insert_self]
  rfl

/-- The handler is given what was prepared. -/
theorem sent_eq {items : List (Key × PyVal)} (hq : q = Provenance.insert (.str "parameters")
      (.dict (ControlServer.confirmedParameters parameters p)) items) (name : String) :
    sent q name = PyVal.get (.dict (ControlServer.confirmedParameters parameters p)) name := by
  rw [sent, hq]
  exact congrArg (·.get name) (get_insert_self _ _)

theorem get_insert_ne {name : String} {key : Key} (v : PyVal) (h : key ≠ .str name) :
    PyVal.get (.dict (Provenance.insert key v parameters)) name = PyVal.get (.dict parameters) name := by
  rw [PyVal.get, PyVal.items, Provenance.lookup_insert_ne v _ h]
  rfl

theorem get_itemIds {ids : List PyVal} (h : p.itemIds = some ids) :
    PyVal.get (.dict (ControlServer.confirmedParameters parameters p)) "item_ids" = .list ids := by
  unfold ControlServer.confirmedParameters
  rw [h]
  cases p.cooldown with
  | none =>
    cases p.priority with
    | none => exact get_insert_self _ _
    | some i => exact (get_insert_ne _ (by decide)).trans (get_insert_self _ _)
  | some c =>
    refine (get_insert_ne _ (by decide)).trans ?_
    cases p.priority with
    | none => exact get_insert_self _ _
    | some i => exact (get_insert_ne _ (by decide)).trans (get_insert_self _ _)

theorem get_priority {i : ℤ} (h : p.priority = some i) :
    PyVal.get (.dict (ControlServer.confirmedParameters parameters p)) "priority" = .int i := by
  unfold ControlServer.confirmedParameters
  rw [h]
  cases p.cooldown with
  | none => exact get_insert_self _ _
  | some c => exact (get_insert_ne _ (by decide)).trans (get_insert_self _ _)

theorem get_cooldown {i : ℤ} (h : p.cooldown = some i) :
    PyVal.get (.dict (ControlServer.confirmedParameters parameters p)) "cooldown_s" = .int i := by
  unfold ControlServer.confirmedParameters
  rw [h]
  exact get_insert_self _ _

end

/-- An earlier request confirms a call of the handler. -/
structure Confirms (log : List (Turn × Handled)) (j i : ℕ) (t : Turn) (q : List (Key × PyVal))
    (n : Key) (p : Prepared) : Prop where
  earlier : j < i
  issued : ∃ e, log[j]? = some e ∧ e.2.prepared = some (n, p) ∧ ControlServer.Asks e.1 p ∧
    t.clock ≤ e.1.clock + 60
  action : Command.ofValue (t.request.get "action") = some p.action
  unused : ∀ k e, j < k → k < i → log[k]? = some e → e.2.used ≠ some n
  itemIds : ∀ ids, p.itemIds = some ids → sent q "item_ids" = .list ids
  priority : ∀ v, p.priority = some v → sent q "priority" = .int v
  cooldown : ∀ v, p.cooldown = some v → sent q "cooldown_s" = .int v
  /-- an action on items changes only what was confirmed -/
  scope : ∀ a handler, p.action = .control a → itemHandler a = some handler →
    ∀ db runId clock, ∀ row ∈ db.downloads.rows,
      (handler db runId (handlerRequest q) clock).db.downloads.find? row.url ≠ some row →
        p.Covers db runId row
  /-- another action does not depend on its parameters -/
  flags : ∀ a, p.action = .control a → itemHandler a = none → ∀ cfg parameters,
    control cfg { handlerRequest q with parameters } a = control cfg (handlerRequest q) a

namespace ControlServer

section
variable {s : ControlServer} {turns : List Turn} {t : Turn}

/-- **Every call of the handler was confirmed.** -/
theorem confirms_call (hfresh : ∀ n, s.confirmations n = none) {i : ℕ} {h : Handled}
    {q : List (Key × PyVal)} (hi : (s.log turns)[i]? = some (t, h)) (hcall : h.call = some q) :
    ∃ j n p, h.used = some n ∧ Confirms (s.log turns) j i t q n p := by
  have hlength := (List.getElem?_eq_some_iff.1 hi).1
  have hhandle := log_getElem? hi
  rw [hhandle] at hcall ⊢
  obtain ⟨n, p, hused, hpasses⟩ := passes_handle hcall
  obtain ⟨j, ⟨e, he, hprepared, hasks⟩, hunused⟩ := outstanding_run hfresh hpasses.confirmed
  rw [log_take] at he hunused
  have hj : j < i := by
    by_contra hge
    rw [List.getElem?_take, if_neg hge] at he
    cases he
  rw [List.getElem?_take_of_lt hj] at he
  obtain ⟨parameters', hparameters', hvalue', hp⟩ := hasks.prepared
  obtain ⟨hdeadline, -, hretry⟩ := prepare_eq_ok hp
  obtain ⟨parameters, hparameters, hq⟩ := hpasses.request
  have hsent := sent_eq hq
  have hids : ∀ ids, p.itemIds = some ids → (handlerRequest q).parameters.get "item_ids" = .list ids :=
    fun ids hids => (hsent "item_ids").trans (get_itemIds hids)
  refine ⟨j, n, p, hused, hj, ⟨e, he, hprepared, hasks, hdeadline ▸ hpasses.fresh⟩, hpasses.action,
    fun k e hk hki he => hunused k e hk ?_, hids, fun v hv => (hsent _).trans (get_priority hv),
    fun v hv => (hsent _).trans (get_cooldown hv), ?_, ?_⟩
  · rw [List.getElem?_take_of_lt hki]
    exact he
  · intro a handler ha hhandler db runId clock row hrow hdiffers
    have hitems : onItems p.action = true := by
      rw [ha]
      cases a <;> first | rfl | cases hhandler
    by_cases hnone : p.itemIds = none
    · obtain rfl := Command.control.inj (ha.symm.trans (hretry hnone hitems))
      obtain rfl := Option.some.inj hhandler
      exact covers_retryNow hids hrow hdiffers
    · obtain ⟨vs, hvs⟩ := Option.ne_none_iff_exists'.1 hnone
      cases a with
      | retryNow =>
        obtain rfl := Option.some.inj hhandler
        exact covers_retryNow hids hrow hdiffers
      | excludeItem | resumeNewGeneration | retryAccessDenied | setItemPriority | setRetryCooldown =>
        obtain rfl := Option.some.inj hhandler
        exact covers_handle _ hvs (hids vs hvs) hrow hdiffers
      | pauseAdmission | resumeAdmission | drainAndStop | checkpointStop => cases hhandler
  · intro a ha hnone cfg parameters
    cases a <;> first | rfl | cases hnone

theorem attached_run : (s.run turns).attached = s.attached := by
  induction turns using List.reverseRecOn with
  | nil => rfl
  | append_singleton turns t ih =>
    rw [run_concat, ← ih]
    cases @does_handle (s.run turns) t with
    | issues _ _ _ _ _ _ _ _ hattached => exact hattached
    | uses _ _ _ _ _ hattached => exact hattached
    | neither _ _ _ _ _ hattached => exact hattached

/-- **Every stored response was given** when the handler was called for its request ID. -/
theorem stored_run (hfresh : ∀ id, s.completed id = none) {id : Key} {response : PyVal}
    (h : (s.run turns).completed id = some response) : ∃ e ∈ s.log turns,
      e.1.request.requestId = id ∧ e.2.call.isSome ∧ e.2.response = some response := by
  induction turns using List.reverseRecOn with
  | nil =>
    rw [run, List.foldl_nil, hfresh] at h
    cases h
  | append_singleton turns t ih =>
    rw [run_concat] at h
    rw [log_concat]
    have hearlier : (s.run turns).completed id = some response →
        ∃ e ∈ s.log turns ++ [(t, (s.run turns).handle t)],
          e.1.request.requestId = id ∧ e.2.call.isSome ∧ e.2.response = some response := by
      intro hbefore
      obtain ⟨e, he, hrest⟩ := ih hbefore
      exact ⟨e, List.mem_append_left _ he, hrest⟩
    cases @does_handle (s.run turns) t with
    | issues _ _ _ _ _ _ _ hcompleted _ => exact hearlier (hcompleted ▸ h)
    | uses _ _ _ _ hcompleted _ =>
      rcases hcompleted with hcompleted | ⟨-, hcall, r, hresponse, hcompleted⟩
      · exact hearlier (hcompleted ▸ h)
      · rw [hcompleted] at h
        by_cases hid : id = t.request.requestId
        · subst hid
          rw [Function.update_self] at h
          obtain rfl := Option.some.inj h
          exact ⟨_, List.mem_append_right _ (List.mem_singleton_self _), rfl, hcall, hresponse⟩
        · rw [Function.update_of_ne hid] at h
          exact hearlier h
    | neither _ _ _ _ hcompleted _ => exact hearlier (hcompleted ▸ h)

/-- One nonce confirms one call. -/
theorem confirms_unique {log : List (Turn × Handled)} {j i i' : ℕ} {t t' : Turn} {h h' : Handled}
    {q q' : List (Key × PyVal)} {n n' : Key} {p p' : Prepared} (hi : log[i]? = some (t, h))
    (hused : h.used = some n) (hc : Confirms log j i t q n p) (hi' : log[i']? = some (t', h'))
    (hused' : h'.used = some n') (hc' : Confirms log j i' t' q' n' p') : i = i' := by
  obtain ⟨e, he, hprepared, -⟩ := hc.issued
  obtain ⟨e', he', hprepared', -⟩ := hc'.issued
  obtain rfl := Option.some.inj (he.symm.trans he')
  obtain ⟨rfl, rfl⟩ := Prod.mk.inj (Option.some.inj (hprepared.symm.trans hprepared'))
  rcases Nat.lt_trichotomy i i' with hlt | heq | hgt
  · exact absurd hused (hc'.unused i _ hc.earlier hlt hi)
  · exact heq
  · exact absurd hused' (hc.unused i' _ hc'.earlier hgt hi')

theorem alive_of_response (h : (s.handle t).response.isSome) : s.alive = true := by
  by_contra hdead
  rw [handle, if_pos (by simpa using hdead)] at h
  cases h

/-- A server that has just started. -/
def started (attached : Bool) : ControlServer := { attached }

/-- **Only confirmed commands run, and each at most once**: the calls of the handler go back
    to distinct earlier requests for a confirmation; and a request with the ID of a stored
    response, which an earlier call gave, is never passed to the handler, and if it asks for
    an action with parameters that are an object, that response is its answer. -/
theorem confirmed_once (attached : Bool) (turns : List Turn) :
    (∃ just : ℕ → ℕ,
      (∀ i t h q, ((started attached).log turns)[i]? = some (t, h) → h.call = some q →
        ∃ n p, h.used = some n ∧ Confirms ((started attached).log turns) (just i) i t q n p) ∧
      ∀ i i' e e', ((started attached).log turns)[i]? = some e →
        ((started attached).log turns)[i']? = some e' → e.2.call.isSome → e'.2.call.isSome →
          just i = just i' → i = i') ∧
    ∀ i t h response, ((started attached).log turns)[i]? = some (t, h) →
      ((started attached).run (turns.take i)).completed t.request.requestId = some response →
        (∃ k e, k < i ∧ ((started attached).log turns)[k]? = some e ∧
          e.1.request.requestId = t.request.requestId ∧ e.2.call.isSome ∧
            e.2.response = some response) ∧
        h.call = none ∧
        ((Command.ofValue (t.request.get "action")).isSome → t.request.parameters.isSome →
          h.response.isSome → h.response = some response) := by
  have hconfirmed := fun i t h q => @confirms_call (started attached) turns t (fun _ => rfl) i h q
  constructor
  · have hex : ∀ i, ∃ j, ∀ t h q, ((started attached).log turns)[i]? = some (t, h) →
        h.call = some q → ∃ n p, h.used = some n ∧
          Confirms ((started attached).log turns) j i t q n p := by
      intro i
      by_cases hcalls : ∃ t h q, ((started attached).log turns)[i]? = some (t, h) ∧ h.call = some q
      · obtain ⟨t, h, q, hi, hcall⟩ := hcalls
        obtain ⟨j, n, p, hused, hc⟩ := hconfirmed i t h q hi hcall
        refine ⟨j, fun t' h' q' hi' hcall' => ?_⟩
        obtain ⟨rfl, rfl⟩ := Prod.mk.inj (Option.some.inj (hi.symm.trans hi'))
        obtain rfl := Option.some.inj (hcall.symm.trans hcall')
        exact ⟨n, p, hused, hc⟩
      · exact ⟨0, fun t h q hi hcall => absurd ⟨t, h, q, hi, hcall⟩ hcalls⟩
    choose just hjust using hex
    refine ⟨just, hjust, ?_⟩
    rintro i i' ⟨t, h⟩ ⟨t', h'⟩ hi hi' hcall hcall' heq
    obtain ⟨q, hcall⟩ := Option.isSome_iff_exists.1 hcall
    obtain ⟨q', hcall'⟩ := Option.isSome_iff_exists.1 hcall'
    obtain ⟨n, p, hused, hc⟩ := hjust i t h q hi hcall
    obtain ⟨n', p', hused', hc'⟩ := hjust i' t' h' q' hi' hcall'
    exact confirms_unique hi hused hc hi' hused' (heq ▸ hc')
  · intro i t h response hi hstored
    obtain ⟨e, he, hid, hcall, hresponse⟩ := stored_run (fun _ => rfl) hstored
    rw [log_take] at he
    obtain ⟨k, hk⟩ := List.mem_iff_getElem?.1 he
    have hki : k < i := by
      by_contra hge
      rw [List.getElem?_take, if_neg hge] at hk
      cases hk
    rw [List.getElem?_take_of_lt hki] at hk
    have hhandle := log_getElem? hi
    refine ⟨⟨k, e, hki, hk, hid, hcall, hresponse⟩, ?_, fun hvalue hparameters hanswer => ?_⟩
    · by_contra hcalls
      obtain ⟨q, hq⟩ := Option.ne_none_iff_exists'.1 hcalls
      rw [hhandle] at hq
      obtain ⟨n, p, -, hpasses⟩ := passes_handle hq
      rw [hpasses.new] at hstored
      cases hstored
    · have hattached : ((started attached).run (turns.take i)).attached = true := by
        obtain ⟨q, hq⟩ := Option.isSome_iff_exists.1 hcall
        rw [log_getElem? (t := e.1) hk] at hq
        obtain ⟨n, p, -, hpasses⟩ := passes_handle hq
        rw [attached_run, ← hpasses.attached, attached_run]
      obtain ⟨action, hvalue⟩ := Option.isSome_iff_exists.1 hvalue
      rw [hhandle] at hanswer ⊢
      rw [handle_replay (alive_of_response hanswer) hattached hvalue hparameters hstored]

end

/-! ## A replay without parameters -/

/-- A request with an ID, an action and parameters. -/
def request (id action : String) (parameters : PyVal) : Authenticated where
  items := [(.str "request_id", .str id), (.str "action", .str action), (.str "parameters", parameters)]
  requestId := .str id
  hasId := rfl

/-- A confirmation of `pause_admission`, and the request that uses it. -/
def pausing : List Turn :=
  [⟨request "r1" "prepare_confirmation" (.dict [(.str "action", .str "pause_admission")]), 0, "n",
    .null, none⟩,
   ⟨request "r2" "pause_admission"
      (.dict [(.str "nonce", .str "n"), (.str "confirmation", .str "pause_admission")]), 1, "m",
    .null, some (.dict [(.str "outcome", .str "completed")])⟩]

/-- A stored response is not given to a request whose parameters are no object. -/
theorem replay_rejected : ¬ ∀ (turns : List Turn) (t : Turn) (response : PyVal),
    ((started true).run turns).completed t.request.requestId = some response →
      (Command.ofValue (t.request.get "action")).isSome →
        (((started true).run turns).handle t).response = some response := by
  intro h
  obtain ⟨response, hstored, hlength⟩ := Option.map_eq_some_iff.1
    (by decide +kernel : (((started true).run pausing).completed (.str "r2")).map
      (fun v => v.items.length) = some 2)
  have hreplay := h pausing ⟨request "r2" "pause_admission" .null, 2, "l", .null, none⟩ response
    hstored rfl
  have hrejected : ((((started true).run pausing).handle
      ⟨request "r2" "pause_admission" .null, 2, "l", .null, none⟩).response.map
        (fun v => v.items.length)) = some 3 := by
    decide +kernel
  rw [hreplay, Option.map_some, hlength] at hrejected
  exact absurd hrejected (by decide)

end ControlServer

end TodDl.Controller
