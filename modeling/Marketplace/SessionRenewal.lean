import Marketplace.Sessions

namespace Marketplace

open Concurrent Redis

variable {T : Type}

def IsSessionCommand : Command → Prop
  | .set _ value ttlSeconds => ttlSeconds = sessionTtlSeconds ∧ ∃ data : SessionData, value = data.text
  | .expire _ ttlSeconds => ttlSeconds = sessionTtlSeconds
  | _ => True

structure SessionInv (s : SessionState T) : Prop where
  chronicle : Chronicle s.log s.strings s.clock
  lasts : ∀ ran ∈ s.log, ran.command.Lasts sessionTtlSeconds
  values : ∀ key stored, s.strings key = some stored → ∃ data : SessionData, stored.value = data.text

theorem SessionInv.run {s : SessionState T} (h : SessionInv s) (client : T) {clock : ℕ} (hle : s.clock ≤ clock)
    {o : Command} (ho : IsSessionCommand o) : SessionInv (s.run client clock o) := by
  refine ⟨h.chronicle.ran client hle o, ?_, ?_⟩
  · intro ran hran
    rcases List.mem_append.mp hran with hran | hran
    · exact h.lasts ran hran
    · rw [List.mem_singleton.mp hran]
      cases o with
      | set => exact ho.1.ge
      | expire => exact Nat.le_of_eq (Eq.symm ho)
      | _ => trivial
  · intro key stored hstored
    have hset {key' value : String} {expireAt : ℕ} (hvalue : ∃ data : SessionData, value = data.text)
        (h' : s.strings.set key' value expireAt key = some stored) : ∃ data :
            SessionData, stored.value = data.text := by
      by_cases hkey : key = key'
      · subst hkey
        rw [Strings.set, Function.update_self] at h'
        cases h'
        exact hvalue
      · rw [Strings.set_other hkey] at h'
        exact h.values key stored h'
    cases o with
    | set key' value ttl => exact hset ho.2 hstored
    | get => exact h.values key stored hstored
    | expire key' ttl =>
      simp only [SessionState.run, Command.exec] at hstored
      split at hstored
      · rename_i value hget
        simp only [Strings.get, Option.map_eq_some_iff] at hget
        obtain ⟨stored', hlive, rfl⟩ := hget
        exact hset (h.values key' stored' (live_eq_some.mp hlive).1) hstored
      · exact h.values key stored hstored
    | del key' =>
      by_cases hkey : key = key'
      · subst hkey
        have hnone : s.strings.del key key = none := Function.update_self ..
        cases hnone.symm.trans hstored
      · exact h.values key stored ((Strings.del_other hkey).symm.trans hstored)

section Calls

variable [DecidableEq T]

def sessionDiscipline : Discipline (sessionMachine (T := T)) where
  inv := SessionInv
  always _ _ := True
  rely _ _ _ := True
  gone _ _ := True
  always_refl _ := trivial
  always_trans _ _ := trivial
  rely_refl _ _ := trivial
  rely_trans _ _ _ _ _ _ := trivial

variable {t : T} {past : List (Ran T)}

def HasRun (t : T) (commands : List (Ran T)) (s : SessionState T) : Prop := commandsOf t s.log = commands

theorem hasRun_stable : (sessionDiscipline (T := T)).Stable t (HasRun t past) := fun _ _ _ h hs => hs.frame.trans h

def AnswersFound (ran : Ran T) : (o : Command) → o.Res → Prop
  | .get _, value => value = ran.after.map Stored.value ∧ ∀ text, value = some text → ∃ data :
    SessionData, text = data.text
  | _, _ => True

theorem command_spec {o : Command} (ho : IsSessionCommand o) :
    (sessionDiscipline (T := T)).Triple t (HasRun t past) (Prog.perform o)
      (fun r s => ∃ ran, (ran.command = o ∧ AnswersFound ran o r) ∧ HasRun t (past ++ [ran]) s) fun _ _ => True := by
  apply Discipline.Triple.perform hasRun_stable
  · intro s r s' hi hp hperform
    have hrun {clock : ℕ} : HasRun t (past ++ [o.ran t clock s.strings]) (s.run t clock o) := by
      rw [HasRun, commandsOf_run, if_pos rfl, hp]
    cases hperform with
    | answer hle =>
      refine ⟨⟨hi.run t hle ho, trivial, fun _ _ => trivial⟩, _, ⟨rfl, ?_⟩, hrun⟩
      cases o with
      | get key =>
        refine ⟨rfl, fun text htext => ?_⟩
        obtain ⟨stored, hlive, rfl⟩ := Option.map_eq_some_iff.mp htext
        exact hi.values key stored (live_eq_some.mp hlive).1
      | _ => trivial
    | lost hle => exact ⟨⟨hi.run t hle ho, trivial, fun _ _ => trivial⟩, trivial⟩
    | refuse => exact ⟨⟨hi, trivial, fun _ _ => trivial⟩, trivial⟩
  · rintro s _ hi - rfl
    exact ⟨⟨hi, trivial, fun _ _ => trivial⟩, fun _ _ => trivial⟩
  · exact fun r => .exists fun ran => .and .const hasRun_stable
  · exact fun _ => .const

def SessionReturned (t : T) : SessionCall → Option JsonValue → SessionState T → Prop
  | .getSession sessionId, some session, s => ∃ get : Ran T, get.command = .get (sessionKey sessionId) ∧
      (session = .null ∧ get.after = none ∧ HasRun t [get] s ∨
        session ≠ .null ∧ get.after.isSome ∧ ∃ expire : Ran T,
          expire.command = .expire (sessionKey sessionId) sessionTtlSeconds ∧ HasRun t [get, expire] s)
  | .getSession _, none, _ => False
  | _, _, _ => True

theorem sessionReturned_stable {call : SessionCall} {r : Option JsonValue} :
    (sessionDiscipline (T := T)).Stable t (SessionReturned t call r) := by
  intro s s' hi h hs
  cases call with
  | getSession sessionId =>
    cases r with
    | none => exact h
    | some session =>
      obtain ⟨get, hget, ⟨hnull, hafter, hrun⟩ | ⟨hdata, hafter, expire, hexpire, hrun⟩⟩ := h
      · exact ⟨get, hget, .inl ⟨hnull, hafter, hasRun_stable s s' hi hrun hs⟩⟩
      · exact ⟨get, hget, .inr ⟨hdata, hafter, expire, hexpire, hasRun_stable s s' hi hrun hs⟩⟩
  | _ => trivial

theorem getSession_spec {sessionId : String} :
    (sessionDiscipline (T := T)).Triple t (HasRun t []) (getSession sessionId)
      (fun session => SessionReturned t (.getSession sessionId) (some session)) fun _ _ => True := by
  refine .bind (command_spec (o := .get (sessionKey sessionId)) trivial) fun value => .exists_pre
    fun get => .pure_pre ?_
  rintro ⟨hget, hvalue, htext⟩
  cases value with
  | none =>
    refine .pure sessionReturned_stable fun s _ hrun => ⟨get, hget, .inl ⟨rfl, ?_, hrun⟩⟩
    exact Option.map_eq_none_iff.mp hvalue.symm
  | some text =>
    obtain ⟨data, rfl⟩ := htext text rfl
    obtain ⟨stored, hstored, -⟩ := Option.map_eq_some_iff.mp hvalue.symm
    have hexpire : IsSessionCommand (.expire (sessionKey sessionId) sessionTtlSeconds) := rfl
    dsimp only
    refine .bind (command_spec hexpire) fun found => ?_
    rw [SessionData.parse_text]
    refine .exists_pre fun expire => .pure_pre ?_
    rintro ⟨hexpire, -⟩
    refine .pure sessionReturned_stable fun s _ hrun => ⟨get, hget, .inr ⟨data.json_ne_null, ?_, expire, hexpire, hrun⟩⟩
    exact Option.isSome_iff_exists.mpr ⟨stored, hstored⟩

theorem SessionCall.run_spec (call : SessionCall) :
    (sessionDiscipline (T := T)).Triple t (HasRun t []) call.run (SessionReturned t call) fun _ _ => True := by
  cases call with
  | createSession sessionId userId =>
    exact .bind (command_spec ⟨rfl, _, rfl⟩) fun _ => .pure .const fun _ _ _ => trivial
  | getSession sessionId => exact .bind getSession_spec fun session => .pure sessionReturned_stable fun _ _ h => h
  | deleteSession sessionId => exact .bind (command_spec trivial) fun _ => .pure .const fun _ _ _ => trivial

variable {calls : T → SessionCall} {clock : ℕ} {c : SessionConfig T}

theorem session_run (h : sessionMachine.Reachable (SessionCalls calls clock) c) :
    SessionInv c.shared ∧ ∀ t r, c.outcome t = some (.ok r) → SessionReturned t (calls t) r c.shared := by
  have hnothing : ∀ t, HasRun t [] (⟨clock, fun _ => none, []⟩ : SessionState T) := fun _ => rfl
  obtain ⟨hinv, hdone, -⟩ := Discipline.run_holds (D := sessionDiscipline)
    ⟨.start, fun _ hran => absurd hran List.not_mem_nil, fun _ _ hstored => by cases hstored⟩ hnothing
    (fun t => (calls t).run_spec) h
  exact ⟨hinv, fun t r hr => hdone t _ hr⟩

end Calls

section Reads

/-- A call of `getSession` that read a session: where its commands stand among those of all the calls. -/
structure SessionRead (log : List (Ran T)) (t : T) (sessionId : String) where
  past : List (Ran T)
  get : Ran T
  during : List (Ran T)
  expire : Ran T
  since : List (Ran T)
  log_eq : log = past ++ get :: during ++ expire :: since
  get_client : get.client = t
  get_command : get.command = .get (sessionKey sessionId)
  expire_client : expire.client = t
  expire_command : expire.command = .expire (sessionKey sessionId) sessionTtlSeconds

variable [DecidableEq T]

def ReadsSession (calls : T → SessionCall) (c : SessionConfig T) (t : T) (sessionId : String) : Prop :=
  calls t = .getSession sessionId ∧ ∃ session, session ≠ JsonValue.null ∧ c.outcome t = some (.ok (some session))

def SessionsRenewed (calls : T → SessionCall) (c : SessionConfig T) : Prop :=
  ∀ t sessionId, ReadsSession calls c t sessionId → Nonempty (SessionRead c.shared.log t sessionId) ∧
    ∀ read : SessionRead c.shared.log t sessionId, NotDeleted (sessionKey sessionId) read.during →
      read.expire.Renewed sessionTtlSeconds

/-- A read that starts before the time to live is up, counted from the end of an earlier read, does not get null. -/
def SessionsKept (calls : T → SessionCall) (c : SessionConfig T) : Prop :=
  ∀ t u sessionId, ReadsSession calls c t sessionId → calls u = .getSession sessionId →
    ∀ (read : SessionRead c.shared.log t sessionId) (next : Ran T) (between later : List (Ran T)),
      read.since = between ++ next :: later → next.client = u → NotDeleted (sessionKey sessionId) read.during →
      NotDeleted (sessionKey sessionId) between → next.time < read.expire.time + sessionTtlSeconds * 1000 →
      c.outcome u ≠ some (.ok (some .null))

/-- No session's time is up between the GET and the EXPIRE of a read. -/
def ReadsInTime (calls : T → SessionCall) (c : SessionConfig T) : Prop :=
  ∀ t sessionId, ReadsSession calls c t sessionId → ∀ read : SessionRead c.shared.log t sessionId,
    NotDeleted (sessionKey sessionId) read.during → ¬read.expire.Lapsed

variable {calls : T → SessionCall} {clock : ℕ} {c : SessionConfig T} {t u : T} {sessionId : String}

theorem mem_commandsOf {log : List (Ran T)} {ran : Ran T} (hlog : ran ∈ log) (hclient : ran.client = t) :
    ran ∈ commandsOf t log :=
  List.mem_filter.mpr ⟨hlog, decide_eq_true hclient⟩

theorem ReadsSession.commands (h : sessionMachine.Reachable (SessionCalls calls clock) c)
    (ht : ReadsSession calls c t sessionId) : ∃ get expire : Ran T, commandsOf t c.shared.log = [get, expire] ∧
      get.command = .get (sessionKey sessionId) ∧ get.after.isSome ∧
      expire.command = .expire (sessionKey sessionId) sessionTtlSeconds := by
  obtain ⟨hcall, session, hsession, houtcome⟩ := ht
  have hreturned := (session_run h).2 t _ houtcome
  rw [hcall] at hreturned
  obtain ⟨get, hget, ⟨hnull, -⟩ | ⟨-, hafter, expire, hexpire, hrun⟩⟩ := hreturned
  · exact absurd hnull hsession
  · exact ⟨get, expire, hrun, hget, hafter, hexpire⟩

theorem ReadsSession.read (h : sessionMachine.Reachable (SessionCalls calls clock) c)
    (ht : ReadsSession calls c t sessionId) : Nonempty (SessionRead c.shared.log t sessionId) := by
  obtain ⟨get, expire, hrun, hget, -, hexpire⟩ := ht.commands h
  obtain ⟨past, rest, hlog, -, hclient, hrest⟩ := List.filter_eq_cons_iff.mp hrun
  obtain ⟨during, since, rfl, -, hclient', -⟩ := List.filter_eq_cons_iff.mp hrest
  refine ⟨⟨past, get, during, expire, since, ?_, of_decide_eq_true hclient, hget, of_decide_eq_true hclient', hexpire⟩⟩
  rw [hlog, List.append_assoc, List.cons_append]

theorem SessionRead.get_found (h : sessionMachine.Reachable (SessionCalls calls clock) c)
    (ht : ReadsSession calls c t sessionId) (read : SessionRead c.shared.log t sessionId) :
    read.get.after.isSome := by
  obtain ⟨get, expire, hrun, hget, hafter, hexpire⟩ := ht.commands h
  have hmem : read.get ∈ commandsOf t c.shared.log := by
    refine mem_commandsOf ((congrArg (read.get ∈ ·) read.log_eq).mpr ?_) read.get_client
    simp
  rw [hrun, List.mem_cons, List.mem_singleton] at hmem
  rcases hmem with heq | heq
  · rwa [heq]
  · have hcommand := read.get_command
    rw [heq, hexpire] at hcommand
    cases hcommand

theorem SessionRead.chronicle (h : sessionMachine.Reachable (SessionCalls calls clock) c)
    (read : SessionRead c.shared.log t sessionId) :
    Chronicle ((read.past ++ read.get :: read.during) ++ read.expire :: read.since) c.shared.strings
      c.shared.clock := by
  have hchronicle := (session_run h).1.chronicle
  rwa [read.log_eq] at hchronicle

theorem SessionRead.renewed_iff (h : sessionMachine.Reachable (SessionCalls calls clock) c)
    (ht : ReadsSession calls c t sessionId) (read : SessionRead c.shared.log t sessionId)
    (hdeleted : NotDeleted (sessionKey sessionId) read.during) :
    read.expire.Renewed sessionTtlSeconds ↔ ¬read.expire.Lapsed := by
  have hlasts := (session_run h).1.lasts
  obtain ⟨stored, hstored⟩ := Option.isSome_iff_exists.mp (read.get_found h ht)
  obtain ⟨strings, clock', hbefore, -, heq⟩ := (read.chronicle h).split rfl
  have hkey : read.get.command.key = sessionKey sessionId := by rw [read.get_command, Command.key]
  have huntil : Until 0 (strings read.get.command.key) := by
    refine (hbefore.until_after (n := sessionTtlSeconds) ⟨stored, hstored, fun _ _ => Nat.zero_le _⟩ ?_ ?_
      (Nat.zero_le _)).2
    · rwa [hkey]
    · intro other hother
      refine hlasts other ?_
      rw [read.log_eq]
      simp [hother]
  refine (read.chronicle h).renewed_iff rfl read.expire_command ?_
  obtain ⟨stored', hstored', -⟩ := huntil
  have hsame : read.expire.before = strings (sessionKey sessionId) := by
    rw [heq, Command.ran, read.expire_command, Command.key]
  rw [hsame, ← hkey, hstored']
  rfl

theorem SessionRead.next_found (h : sessionMachine.Reachable (SessionCalls calls clock) c)
    (read : SessionRead c.shared.log t sessionId) (hrenewed : read.expire.Renewed sessionTtlSeconds) {next : Ran T}
    {between later : List (Ran T)} (hsince : read.since = between ++ next :: later)
    (hdeleted : NotDeleted (sessionKey sessionId) between)
    (htime : next.time ≤ read.expire.time + sessionTtlSeconds * 1000)
    (hnext : next.command = .get (sessionKey sessionId)) : next.after.isSome := by
  have hlasts := (session_run h).1.lasts
  have hchronicle := read.chronicle h
  rw [hsince, ← List.cons_append, ← List.append_assoc] at hchronicle
  obtain ⟨strings, clock', hbefore, -, heq⟩ := hchronicle.split rfl
  obtain ⟨value, hvalue⟩ := hrenewed
  have hkey : read.expire.command.key = sessionKey sessionId := by rw [read.expire_command, Command.key]
  have huntil : Until next.time (strings read.expire.command.key) := by
    refine (hbefore.until_after (n := sessionTtlSeconds) ⟨_, hvalue, ?_⟩ ?_ ?_ htime).2
    · rintro _ ⟨⟩
      exact htime
    · rwa [hkey]
    · intro other hother
      refine hlasts other ?_
      rw [read.log_eq, hsince]
      simp [hother]
  obtain ⟨stored, hstored, hlive⟩ := huntil
  have hafter : next.after = live next.time (strings (sessionKey sessionId)) := by
    rw [heq, Command.ran, hnext, Command.key]
    rfl
  rw [hafter, ← hkey, live_eq_some.mpr ⟨hstored, hlive⟩]
  rfl

theorem null_command (h : sessionMachine.Reachable (SessionCalls calls clock) c) (hu : calls u = .getSession sessionId)
    (houtcome : c.outcome u = some (.ok (some .null))) {ran : Ran T} (hran : ran ∈ c.shared.log)
    (hclient : ran.client = u) :
    ran.command = .get (sessionKey sessionId) ∧ ran.after = none := by
  have hreturned := (session_run h).2 u _ houtcome
  rw [hu] at hreturned
  obtain ⟨get, hget, ⟨-, hafter, hrun⟩ | ⟨hdata, -⟩⟩ := hreturned
  · have hmem := mem_commandsOf hran hclient
    rw [hrun, List.mem_singleton] at hmem
    rw [hmem]
    exact ⟨hget, hafter⟩
  · exact absurd rfl hdata

theorem sessions_renewed_iff (h : sessionMachine.Reachable (SessionCalls calls clock) c) :
    (SessionsRenewed calls c ↔ ReadsInTime calls c) ∧ (ReadsInTime calls c → SessionsKept calls c) := by
  have hrenewed {t : T} {sessionId : String} (ht : ReadsSession calls c t sessionId)
      (read : SessionRead c.shared.log t sessionId) (hdeleted : NotDeleted (sessionKey sessionId) read.during) :
      read.expire.Renewed sessionTtlSeconds ↔ ¬read.expire.Lapsed := read.renewed_iff h ht hdeleted
  refine ⟨⟨?_, ?_⟩, ?_⟩
  · exact fun hall t sessionId ht read hdeleted => (hrenewed ht read hdeleted).mp
      ((hall t sessionId ht).2 read hdeleted)
  · intro hall t sessionId ht
    refine ⟨ht.read h, fun read hdeleted => (hrenewed ht read hdeleted).mpr (hall t sessionId ht read hdeleted)⟩
  · intro hall t u sessionId ht hu read next between later hsince hclient hdeleted hbetween htime houtcome
    have hmem : next ∈ c.shared.log := by
      rw [read.log_eq, hsince]
      simp
    obtain ⟨hcommand, hnone⟩ := null_command h hu houtcome hmem hclient
    have hfound := read.next_found h
      ((hrenewed ht read hdeleted).mpr (hall t sessionId ht read hdeleted)) hsince hbetween
      htime.le hcommand
    rw [hnone] at hfound
    cases hfound

def lateCalls : ℕ → SessionCall
  | 0 => .createSession "s" 1
  | _ => .getSession "s"

theorem sessions_renewed_iff_steady : ∃ c : SessionConfig ℕ,
    sessionMachine.Reachable (SessionCalls lateCalls 0) c ∧
    c.outcome 2 = some (.ok (some (SessionData.json ⟨"s", 1⟩))) ∧
    SessionsRenewed lateCalls c ∧ SessionsKept lateCalls c := by
  have hrun : ∃ c : SessionConfig ℕ, sessionMachine.Reachable (SessionCalls lateCalls 0) c ∧
      c.outcome 2 = some (.ok (some (SessionData.json ⟨"s", 1⟩))) ∧
      ∀ ran ∈ c.shared.log, ∀ stored ∈ ran.before, ∀ expireAt ∈ stored.expireAt, ran.time ≤ expireAt := by
    apply exists_reachable (S := sessionMoves)
      [(0, some 0), (1, some 3000), (1, some 3001), (2, some 8000), (2, some 8001)]
    refine ⟨_, rfl, rfl, ?_⟩
    decide
  obtain ⟨c, hc, houtcome, hlive⟩ := hrun
  obtain ⟨hiff, hkept⟩ := sessions_renewed_iff hc
  have hintime : ReadsInTime lateCalls c := by
    rintro t sessionId - read - ⟨stored, expireAt, hbefore, hexpire, hlt⟩
    have hmem : read.expire ∈ c.shared.log := (congrArg (read.expire ∈ ·) read.log_eq).mpr (by simp)
    exact absurd hlt (Nat.not_lt.mpr (hlive _ hmem stored hbefore expireAt hexpire))
  exact ⟨c, hc, houtcome, hiff.mpr hintime, hkept hintime⟩

-- call 1 reads the session in its last millisecond and would renew it one later
def lateSchedule : List (ℕ × Option ℕ) := [(0, some 0), (1, some 5000), (1, some 5001), (2, some 5001)]

theorem late_renewal_fails : ∃ c : SessionConfig ℕ, sessionMachine.Reachable (SessionCalls lateCalls 0) c ∧
    ¬SessionsRenewed lateCalls c ∧ ¬SessionsKept lateCalls c := by
  have hrun : ∃ c : SessionConfig ℕ, sessionMachine.Reachable (SessionCalls lateCalls 0) c ∧
      c.outcome 1 = some (.ok (some (SessionData.json ⟨"s", 1⟩))) ∧ c.outcome 2 = some (.ok (some .null)) ∧
      ∃ create get expire next : Ran ℕ, c.shared.log = [create, get, expire, next] ∧ get.client = 1 ∧
        get.command = .get (sessionKey "s") ∧ expire.client = 1 ∧
        expire.command = .expire (sessionKey "s") sessionTtlSeconds ∧ expire.time = 5001 ∧ expire.after = none ∧
        next.client = 2 ∧ next.time = 5001 := by
    apply exists_reachable (S := sessionMoves) lateSchedule
    exact ⟨_, rfl, rfl, rfl, _, _, _, _, rfl, rfl, rfl, rfl, rfl, rfl, rfl, rfl, rfl⟩
  obtain ⟨c, hc, hread, hnull, create, get, expire, next, hlog, hget, hgetCommand, hexpire, hexpireCommand, htime,
    hafter,
    hnext, hnextTime⟩ := hrun
  have hreads : ReadsSession lateCalls c 1 "s" := ⟨rfl, _, SessionData.json_ne_null _, hread⟩
  let read : SessionRead c.shared.log 1 "s" :=
    ⟨[create], get, [], expire, [next], hlog, hget, hgetCommand, hexpire, hexpireCommand⟩
  have hnone : NotDeleted (T := ℕ) (sessionKey "s") [] := fun _ h => absurd h List.not_mem_nil
  refine ⟨c, hc, fun hrenewed => ?_, fun hkept => ?_⟩
  · obtain ⟨value, hvalue⟩ := (hrenewed 1 "s" hreads).2 read hnone
    cases hafter.symm.trans hvalue
  · refine hkept 1 2 "s" hreads rfl read next [] [] rfl hnext hnone hnone ?_ hnull
    change next.time < expire.time + sessionTtlSeconds * 1000
    rw [hnextTime, htime]
    decide

end Reads

end Marketplace
