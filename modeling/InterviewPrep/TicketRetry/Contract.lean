import Mathlib.Tactic.ByContra
import InterviewPrep.TicketRetry.Model

/-!
# What the retries do

`Goes` describes a whole call: at most three requests with the same body and key, a
doubling pause behind each one that failed in passing, and a result that is the
outcome of the last request. `createTicket_goes` and `create_ticket_goes` show that
every run of the two functions goes so, against every service.

The functions differ in what they retry and in what they throw; that is their
`Policy`. `createTicket_agrees` is about a service that treats both alike.
-/

namespace InterviewPrep.TicketRetry

variable {E V : Type}

abbrev Exchange (E V : Type) := Sigma (Answer E V)

/-- What is retried, and what is thrown for a request that was the last one. -/
structure Policy (E : Type) where
  transient : Fetched E → Bool
  failure : Fetched E → Failure E

/-- The policy of `createTicket`: everything that is thrown is retried. -/
def typeScript : Policy E where
  transient
    | .responded ok status => !ok && retryable status
    | _ => true
  failure
    | .responded _ status =>
      if retryable status then .retryable s!"retryable HTTP {status}"
      else .nonRetryable s!"non-retryable HTTP {status}"
    | .timedOut aborted => timeoutError aborted
    | .failed err => .thrown err
    | .raised err => .thrown err

/-- The policy of `create_ticket`. -/
def python : Policy E where
  transient
    | .responded ok status => !ok && retryable status
    | .raised _ => false
    | _ => true
  failure
    | .responded _ status =>
      if retryable status then .retryable "retryable HTTP failure"
      else .nonRetryable s!"non-retryable HTTP {status}"
    | .timedOut _ => .timedOut ""
    | .failed err => .thrown err
    | .raised err => .thrown err

def Fetched.isOk : Fetched E → Bool
  | responded ok _ => ok
  | _ => false

/-- Requests with their pauses, from attempt `i` on. -/
def attempts (body key : String) : ℕ → List (Fetched E) → List (Exchange E V)
  | _, [] => []
  | i, x :: xs => ⟨.fetch key body, x⟩ :: ⟨.sleep (100 * 2 ^ i), ()⟩ :: attempts body key (i + 1) xs

/-- What is asked behind the last request, and the result. -/
inductive Concludes (p : Policy E) (last : Fetched E) :
    List (Exchange E V) → Except (Failure E) V → Prop where
  | returns {value : V} : last.isOk = true → Concludes p last [⟨.json, .ok value⟩] (.ok value)
  | invalid {err : E} : last.isOk = true →
      Concludes p last [⟨.json, .error err⟩] (.error (.thrown err))
  | throws : last.isOk = false → Concludes p last [] (.error (p.failure last))

/-- How a call goes from attempt `i` on. -/
structure Goes (p : Policy E) (body key : String) (i : ℕ) (tr : List (Exchange E V))
    (r : Except (Failure E) V) (earlier : List (Fetched E)) (last : Fetched E) : Prop where
  trace : ∃ rest, tr = attempts body key i earlier ++ ⟨.fetch key body, last⟩ :: rest ∧
    Concludes p last rest r
  /-- each request but the last one failed in passing -/
  transient : ∀ x ∈ earlier, p.transient x = true
  bounded : i + earlier.length ≤ 2
  /-- a request that failed in passing is the last one only if it is the third -/
  exhausted : p.transient last = true → i + earlier.length = 2

section Goes

variable {p : Policy E} {body key : String} {i : ℕ} {tr : List (Exchange E V)}
  {r : Except (Failure E) V} {earlier : List (Fetched E)} {last x : Fetched E}

theorem Goes.again (hx : p.transient x = true) (h : Goes p body key (i + 1) tr r earlier last) :
    Goes p body key i (⟨.fetch key body, x⟩ :: ⟨.sleep (100 * 2 ^ i), ()⟩ :: tr) r
      (x :: earlier) last := by
  have hbounded := h.bounded
  refine ⟨?_, ?_, ?_, ?_⟩
  · rcases h.trace with ⟨rest, rfl, hrest⟩
    exact ⟨rest, rfl, hrest⟩
  · exact List.forall_mem_cons.mpr ⟨hx, h.transient⟩
  · rw [List.length_cons]
    omega
  · intro hlast
    have hexhausted := h.exhausted hlast
    rw [List.length_cons]
    omega

theorem Goes.single {rest : List (Exchange E V)} (hrest : Concludes p last rest r) (hi : i ≤ 2)
    (hlast : p.transient last = true → i = 2) :
    Goes p body key i (⟨.fetch key body, last⟩ :: rest) r [] last :=
  ⟨⟨rest, rfl, hrest⟩, by simp, hi, hlast⟩

end Goes

/-! ## Python -/

section Python

variable {body key : String} {i n : ℕ} {tr : List (Exchange E V)} {r : Except (Failure E) V}

theorem returnJson_runs {p : Policy E} {last : Fetched E} (hlast : last.isOk = true)
    (h : (returnJson : Program (Answer E V) (Except (Failure E) V)).Runs tr r) :
    Concludes p last tr r := by
  rcases h with ⟨answer, tr', rfl, h⟩
  cases answer with
  | ok value =>
    rcases h with ⟨rfl, rfl⟩
    exact .returns hlast
  | error err =>
    rcases h with ⟨rfl, rfl⟩
    exact .invalid hlast

/-- A request that failed in passing is the last one, or it is followed by a pause. -/
theorem goes_of_excepted {x : Fetched E} {next : Program (Answer E V) (Except (Failure E) V)}
    (hx : python.transient x = true) (hok : x.isOk = false) (hi : i ≤ 2)
    (h : (excepted i (python.failure x) next).Runs tr r)
    (hnext : ∀ tr, i + 1 ≤ 2 → next.Runs tr r →
      ∃ earlier last, Goes python body key (i + 1) tr r earlier last) :
    ∃ earlier last, Goes python body key i (⟨.fetch key body, x⟩ :: tr) r earlier last := by
  by_cases hlast : i = 2
  · rw [excepted, if_pos hlast] at h
    rcases h with ⟨rfl, rfl⟩
    exact ⟨[], x, .single (.throws hok) hi fun _ => hlast⟩
  · rw [excepted, if_neg hlast] at h
    -- behind the pause the call goes on as from the next attempt
    rcases Program.runs_ask_bind.mp h with ⟨_, tr, rfl, hrest⟩
    rcases hnext tr (by omega) hrest with ⟨earlier, last, hgoes⟩
    exact ⟨x :: earlier, last, hgoes.again hx⟩

theorem create_ticket_from_goes (hn : n + i = 3) (hi : i ≤ 2)
    (h : (create_ticket_from body key n i).Runs tr r) :
    ∃ earlier last, Goes python body key i tr r earlier last := by
  induction n generalizing i tr with
  | zero => omega
  | succ n ih =>
    rw [create_ticket_from] at h
    rcases Program.runs_ask_bind.mp h with ⟨x, tr, rfl, hrest⟩
    have hnext : ∀ tr, i + 1 ≤ 2 → (create_ticket_from body key n (i + 1)).Runs tr r →
        ∃ earlier last, Goes python body key (i + 1) tr r earlier last :=
      fun tr hi' h => ih (by omega) hi' h
    cases x with
    | responded ok status =>
      dsimp only at hrest
      -- the response ends the call, or is retried like an exception
      by_cases hok : ok = true
      · rw [if_pos hok] at hrest
        exact ⟨[], _, .single (returnJson_runs hok hrest) hi (by simp [python, hok])⟩
      · rw [if_neg hok] at hrest
        have hok := Bool.eq_false_iff.mpr hok
        by_cases hretryable : retryable status = true
        · rw [if_neg (by simp [hretryable])] at hrest
          refine goes_of_excepted (x := .responded ok status) (by simp [python, hok, hretryable]) hok
            hi ?_ hnext
          simp only [python, hretryable, if_true]
          exact hrest
        · rw [if_pos (by simp [hretryable])] at hrest
          rcases hrest with ⟨rfl, rfl⟩
          have hfailure : python.failure (.responded ok status : Fetched E) =
              .nonRetryable s!"non-retryable HTTP {status}" := if_neg hretryable
          have hconcludes : Concludes python (.responded ok status : Fetched E)
              ([] : List (Exchange E V)) _ := .throws hok
          rw [hfailure] at hconcludes
          exact ⟨[], _, .single hconcludes hi (by simp [python, hretryable])⟩
    | timedOut aborted => exact goes_of_excepted rfl rfl hi hrest hnext
    | failed err => exact goes_of_excepted rfl rfl hi hrest hnext
    -- not in the `except` clause
    | raised err =>
      rcases hrest with ⟨rfl, rfl⟩
      exact ⟨[], _, .single (.throws rfl) hi (by simp [python])⟩

/-- **Retries in Python.** -/
theorem create_ticket_goes (h : (create_ticket body key).Runs tr r) :
    ∃ earlier last, Goes python body key 0 tr r earlier last :=
  create_ticket_from_goes rfl (Nat.zero_le _) h

end Python

/-! ## TypeScript -/

def Exchange.isTimer : Exchange E V → Bool
  | ⟨.startTimer, _⟩ => true
  | ⟨.clearTimer, _⟩ => true
  | _ => false

/-- At most one timer runs at a time, every request is made under one, and in the end
none is left. -/
def Timed : Bool → List (Exchange E V) → Prop
  | running, [] => running = false
  | running, ⟨.startTimer, _⟩ :: tr => running = false ∧ Timed true tr
  | running, ⟨.clearTimer, _⟩ :: tr => running = true ∧ Timed false tr
  | running, ⟨.fetch _ _, _⟩ :: tr => running = true ∧ Timed running tr
  | running, ⟨.json, _⟩ :: tr => Timed running tr
  | running, ⟨.sleep _, _⟩ :: tr => Timed running tr

section TypeScript

variable {body key : String} {i n : ℕ} {tr : List (Exchange E V)} {r : Except (Failure E) V}

/-- What the exchanges other than those with the timers are. -/
def untimed (tr : List (Exchange E V)) : List (Exchange E V) := tr.filter fun e => !e.isTimer

theorem goes_of_caught {x : Fetched E} {next : Program (Answer E V) (Except (Failure E) V)}
    (hx : typeScript.transient x = true) (hok : x.isOk = false) (hi : i ≤ 2)
    (h : (caught i (typeScript.failure x) next).Runs tr r)
    (hnext : ∀ tr, i + 1 ≤ 2 → next.Runs tr r → Timed false tr ∧
      ∃ earlier last, Goes typeScript body key (i + 1) (untimed tr) r earlier last) :
    Timed true tr ∧ ∃ earlier last,
      Goes typeScript body key i (⟨.fetch key body, x⟩ :: untimed tr) r earlier last := by
  by_cases hlast : i = 2
  · -- the last attempt throws, and `finally` clears the timer
    rw [caught, if_pos hlast] at h
    rcases Program.runs_ask_bind.mp h with ⟨_, _, rfl, rfl, rfl⟩
    exact ⟨⟨rfl, rfl⟩, [], x, .single (.throws hok) hi fun _ => hlast⟩
  · rw [caught, if_neg hlast] at h
    -- the timer is cleared behind the pause only
    rcases Program.runs_ask_bind.mp h with ⟨_, _, rfl, hclear⟩
    rcases Program.runs_ask_bind.mp hclear with ⟨_, tr, rfl, hrest⟩
    rcases hnext tr (by omega) hrest with ⟨htimed, earlier, last, hgoes⟩
    exact ⟨⟨rfl, htimed⟩, x :: earlier, last, hgoes.again hx⟩

theorem Concludes.untimed {p : Policy E} {last : Fetched E} (h : Concludes p last tr r) :
    Timed false tr ∧ TicketRetry.untimed tr = tr := by
  cases h <;> exact ⟨rfl, rfl⟩

theorem createTicketFrom_goes (hn : n + i = 3) (hi : i ≤ 2)
    (h : (createTicketFrom body key n i).Runs tr r) :
    Timed false tr ∧ ∃ earlier last, Goes typeScript body key i (untimed tr) r earlier last := by
  induction n generalizing i tr with
  | zero => omega
  | succ n ih =>
    rw [createTicketFrom] at h
    rcases Program.runs_ask_bind.mp h with ⟨_, _, rfl, hfetch⟩
    rcases Program.runs_ask_bind.mp hfetch with ⟨x, tr, rfl, hrest⟩
    have hnext : ∀ tr, i + 1 ≤ 2 → (createTicketFrom body key n (i + 1)).Runs tr r →
        Timed false tr ∧
          ∃ earlier last, Goes typeScript body key (i + 1) (untimed tr) r earlier last :=
      fun tr hi' h => ih (by omega) hi' h
    have hgoal : (Timed true tr ∧ ∃ earlier last,
        Goes typeScript body key i (⟨.fetch key body, x⟩ :: untimed tr) r earlier last) →
        Timed false (⟨.startTimer, ()⟩ :: ⟨.fetch key body, x⟩ :: tr) ∧ ∃ earlier last,
          Goes typeScript body key i (untimed (⟨.startTimer, ()⟩ :: ⟨.fetch key body, x⟩ :: tr)) r
            earlier last :=
      fun hgoal => ⟨⟨rfl, rfl, hgoal.1⟩, hgoal.2⟩
    -- what is left to prove starts with the request, under its timer
    apply hgoal
    cases x with
    | responded ok status =>
      rcases Program.runs_ask_bind.mp hrest with ⟨_, tr, rfl, hcleared⟩
      have hclear : Timed true (⟨.clearTimer, ()⟩ :: tr) = (true = true ∧ Timed false tr) := rfl
      have huntimed : untimed (⟨.clearTimer, ()⟩ :: tr : List (Exchange E V)) = untimed tr := rfl
      -- the timer is cleared before the status is read
      rw [hclear, huntimed]
      by_cases hok : ok = true
      · rw [if_pos hok] at hcleared
        have hjson : Concludes typeScript (.responded ok status) tr r := returnJson_runs hok hcleared
        rw [hjson.untimed.2]
        exact ⟨⟨rfl, hjson.untimed.1⟩, [], _, .single hjson hi (by simp [typeScript, hok])⟩
      · rw [if_neg hok] at hcleared
        have hok := Bool.eq_false_iff.mpr hok
        by_cases hretryable : retryable status = true
        · rw [if_neg (by simp [hretryable])] at hcleared
          have hfailure : typeScript.failure (.responded ok status : Fetched E) =
              .retryable s!"retryable HTTP {status}" := if_pos hretryable
          by_cases hlast : i = 2
          · rw [if_pos hlast] at hcleared
            rcases hcleared with ⟨rfl, rfl⟩
            have hthrows : Concludes typeScript (.responded ok status : Fetched E)
                ([] : List (Exchange E V)) _ := .throws hok
            rw [hfailure] at hthrows
            exact ⟨⟨rfl, rfl⟩, [], _, .single hthrows hi fun _ => hlast⟩
          · rw [if_neg hlast] at hcleared
            rcases Program.runs_ask_bind.mp hcleared with ⟨_, tr, rfl, hslept⟩
            rcases hnext tr (by omega) hslept with ⟨htimed, earlier, last, hgoes⟩
            exact ⟨⟨rfl, htimed⟩, _, last, hgoes.again (by simp [typeScript, hok, hretryable])⟩
        · rw [if_pos (by simp [hretryable])] at hcleared
          rcases hcleared with ⟨rfl, rfl⟩
          have hfailure : typeScript.failure (.responded ok status : Fetched E) =
              .nonRetryable s!"non-retryable HTTP {status}" := if_neg hretryable
          have hthrows : Concludes typeScript (.responded ok status : Fetched E)
              ([] : List (Exchange E V)) _ := .throws hok
          rw [hfailure] at hthrows
          exact ⟨⟨rfl, rfl⟩, [], _, .single hthrows hi (by simp [typeScript, hretryable])⟩
    | timedOut aborted => exact goes_of_caught rfl rfl hi hrest hnext
    | failed err => exact goes_of_caught rfl rfl hi hrest hnext
    | raised err => exact goes_of_caught rfl rfl hi hrest hnext

/-- **Retries in TypeScript.** -/
theorem createTicket_goes (h : (createTicket body key).Runs tr r) :
    Timed false tr ∧ ∃ earlier last, Goes typeScript body key 0 (untimed tr) r earlier last :=
  createTicketFrom_goes rfl (Nat.zero_le _) h

end TypeScript

/-! ## Agreement -/

/-- The outcomes of the requests, in order. -/
def fetched (tr : List (Exchange E V)) : List (Fetched E) :=
  tr.filterMap fun
    | ⟨.fetch _ _, x⟩ => some x
    | _ => none

/-- The service answers the `i`-th request with `f i`, and its JSON is `j`. -/
structure Follows (f : ℕ → Fetched E) (j : Except E V) (tr : List (Exchange E V)) : Prop where
  fetched : ∀ (i : ℕ) x, (fetched tr)[i]? = some x → x = f i
  json : ∀ answer, ⟨.json, answer⟩ ∈ tr → answer = j

/-- The error that Python raises in the place of one of TypeScript: those of a timeout and
of the last retryable status are others. -/
def Failure.toPython : Failure E → Failure E
  | timedOut _ => .timedOut ""
  | aborted _ => .timedOut ""
  | retryable _ => .retryable "retryable HTTP failure"
  | error => error

section Agreement

variable {p q : Policy E} {body key : String} {i : ℕ} {tr tr' : List (Exchange E V)}
  {r r' : Except (Failure E) V} {earlier earlier' : List (Fetched E)} {last last' : Fetched E}
  {f : ℕ → Fetched E} {j : Except E V}

theorem fetched_untimed (tr : List (Exchange E V)) : fetched (untimed tr) = fetched tr := by
  rw [fetched, untimed, List.filterMap_filter]
  congr
  funext e
  rcases e with ⟨q, x⟩
  cases q <;> rfl

theorem fetched_attempts (body key : String) (i : ℕ) (xs : List (Fetched E)) :
    fetched (attempts body key i xs : List (Exchange E V)) = xs := by
  induction xs generalizing i with
  | nil => rfl
  | cons x xs ih => exact congrArg (x :: ·) (ih (i + 1))

theorem Goes.fetched (h : Goes p body key i tr r earlier last) :
    fetched tr = earlier ++ [last] := by
  rcases h.trace with ⟨rest, rfl, hrest⟩
  have hnone : TicketRetry.fetched rest = [] := by
    cases hrest <;> rfl
  have hcons : TicketRetry.fetched (⟨.fetch key body, last⟩ :: rest) = [last] :=
    congrArg (last :: ·) hnone
  have happend : ∀ l l' : List (Exchange E V),
      TicketRetry.fetched (l ++ l') = TicketRetry.fetched l ++ TicketRetry.fetched l' :=
    fun l l' => List.filterMap_append
  rw [happend, hcons, fetched_attempts]

theorem Follows.outcomes (hf : Follows f j tr) (h : Goes p body key i tr r earlier last) :
    earlier = (List.range earlier.length).map f ∧ last = f earlier.length := by
  have hget := hf.fetched
  rw [h.fetched] at hget
  constructor
  · apply List.ext_getElem
    · simp
    · intro k hk hk'
      rw [List.getElem_map, List.getElem_range]
      apply hget
      rw [List.getElem?_append_left hk, List.getElem?_eq_getElem hk]
  · exact hget _ _ List.getElem?_concat_length

/-- Of two policies that retry the same requests, none gives up before the other. -/
theorem length_le (hp : ∀ i, p.transient (f i) = q.transient (f i))
    (h : Goes p body key 0 tr r earlier last) (hlast : last = f earlier.length)
    (h' : Goes q body key 0 tr' r' earlier' last')
    (hearlier : earlier' = (List.range earlier'.length).map f) :
    earlier'.length ≤ earlier.length := by
  by_contra hlt
  have hlt := Nat.not_le.mp hlt
  have hmem : f earlier.length ∈ earlier' := by
    rw [hearlier]
    exact List.mem_map_of_mem (List.mem_range.mpr hlt)
  have htransient := h'.transient _ hmem
  rw [← hp, ← hlast] at htransient
  -- the shorter call would have stopped before its third request
  have hexhausted := h.exhausted htransient
  have hbounded := h'.bounded
  omega

theorem failure_toPython (x : Fetched E) :
    python.failure x = (typeScript.failure x).toPython := by
  cases x with
  | responded ok status =>
    by_cases hretryable : retryable status = true
    · simp [python, typeScript, hretryable, Failure.toPython]
    · simp [python, typeScript, hretryable, Failure.toPython]
  -- whichever promise was rejected first, Python raises the one error
  | timedOut aborted => cases aborted <;> rfl
  | _ => rfl

/-- The ends of a call, when the JSON is the same. -/
theorem Concludes.agree {rest rest' : List (Exchange E V)}
    (h : Concludes typeScript last rest r) (h' : Concludes python last rest' r')
    (hj : ∀ answer, ⟨.json, answer⟩ ∈ rest → answer = j)
    (hj' : ∀ answer, ⟨.json, answer⟩ ∈ rest' → answer = j) :
    rest = rest' ∧ r' = r.mapError Failure.toPython := by
  cases h with
  | returns hok =>
    have hvalue := hj _ (List.mem_singleton_self _)
    cases h' with
    | returns =>
      cases hvalue.trans (hj' _ (List.mem_singleton_self _)).symm
      exact ⟨rfl, rfl⟩
    | invalid => cases hvalue.trans (hj' _ (List.mem_singleton_self _)).symm
    | throws hnot => simp [hok] at hnot
  | invalid hok =>
    have hvalue := hj _ (List.mem_singleton_self _)
    cases h' with
    | returns => cases hvalue.trans (hj' _ (List.mem_singleton_self _)).symm
    | invalid =>
      cases hvalue.trans (hj' _ (List.mem_singleton_self _)).symm
      exact ⟨rfl, rfl⟩
    | throws hnot => simp [hok] at hnot
  | throws hnot =>
    cases h' with
    | returns hok => simp [hok] at hnot
    | invalid hok => simp [hok] at hnot
    | throws => exact ⟨rfl, congrArg Except.error (failure_toPython last)⟩

/-- **Agreement.** Against a service that answers both alike, and of which nothing but
a timeout or a transport failure is thrown, the two functions make the same requests
with the same pauses and come to the same end, up to the errors that `toPython`
names. -/
theorem createTicket_agrees (hraised : ∀ i err, f i ≠ .raised err)
    (h : (createTicket body key).Runs tr r) (hf : Follows f j tr)
    (h' : (create_ticket body key).Runs tr' r') (hf' : Follows f j tr') :
    untimed tr = tr' ∧ r' = r.mapError Failure.toPython := by
  rcases (createTicket_goes h).2 with ⟨earlier, last, hgoes⟩
  rcases create_ticket_goes h' with ⟨earlier', last', hgoes'⟩
  -- what the service answered does not depend on the timers
  have hfollows : Follows f j (untimed tr) := by
    refine ⟨?_, fun answer hmem => hf.json answer (List.mem_filter.mp hmem).1⟩
    rw [fetched_untimed]
    exact hf.fetched
  rcases hfollows.outcomes hgoes with ⟨hearlier, hlast⟩
  rcases hf'.outcomes hgoes' with ⟨hearlier', hlast'⟩
  -- only what is raised is treated differently
  have hsame : ∀ i, (typeScript.transient (f i)) = python.transient (f i) := by
    intro i
    cases hi : f i with
    | raised err => exact absurd hi (hraised i err)
    | _ => rfl
  have hlength : earlier.length = earlier'.length :=
    Nat.le_antisymm (length_le (fun i => (hsame i).symm) hgoes' hlast' hgoes hearlier)
      (length_le hsame hgoes hlast hgoes' hearlier')
  have heq : earlier = earlier' := by rw [hearlier, hearlier', hlength]
  have hlasts : last = last' := by rw [hlast, hlast', hlength]
  subst heq hlasts
  rcases hgoes.trace with ⟨rest, htr, hrest⟩
  rcases hgoes'.trace with ⟨rest', rfl, hrest'⟩
  have hjson : ∀ answer, ⟨.json, answer⟩ ∈ rest → answer = j := by
    intro answer hmem
    apply hfollows.json answer
    rw [htr]
    simp [hmem]
  have hjson' : ∀ answer, ⟨.json, answer⟩ ∈ rest' → answer = j := fun answer hmem =>
    hf'.json answer (by simp [hmem])
  rcases hrest.agree hrest' hjson hjson' with ⟨rfl, hr⟩
  exact ⟨htr, hr⟩

end Agreement

/-! ## A ticket that is created at the third attempt -/

/-- The service is busy, then it hangs, then it creates the ticket. -/
def thirdAttempt : List (Exchange String ℕ) :=
  [⟨.fetch "k" "b", .responded false 429⟩, ⟨.sleep 100, ()⟩, ⟨.fetch "k" "b", .timedOut none⟩,
    ⟨.sleep 200, ()⟩, ⟨.fetch "k" "b", .responded true 201⟩, ⟨.json, .ok 7⟩]

def thirdAttemptTimed : List (Exchange String ℕ) :=
  [⟨.startTimer, ()⟩, ⟨.fetch "k" "b", .responded false 429⟩, ⟨.clearTimer, ()⟩, ⟨.sleep 100, ()⟩,
    ⟨.startTimer, ()⟩, ⟨.fetch "k" "b", .timedOut none⟩, ⟨.sleep 200, ()⟩, ⟨.clearTimer, ()⟩,
    ⟨.startTimer, ()⟩, ⟨.fetch "k" "b", .responded true 201⟩, ⟨.clearTimer, ()⟩, ⟨.json, .ok 7⟩]

theorem createTicket_runs_thirdAttempt :
    (createTicket "b" "k").Runs thirdAttemptTimed (.ok 7) :=
  ⟨_, _, rfl, _, _, rfl, _, _, rfl, _, _, rfl, _, _, rfl, _, _, rfl, _, _, rfl, _, _, rfl,
    _, _, rfl, _, _, rfl, _, _, rfl, _, _, rfl, rfl, rfl⟩

theorem create_ticket_runs_thirdAttempt : (create_ticket "b" "k").Runs thirdAttempt (.ok 7) :=
  ⟨_, _, rfl, _, _, rfl, _, _, rfl, _, _, rfl, _, _, rfl, _, _, rfl, rfl, rfl⟩

theorem createTicket_goes_thirdAttempt :
    Timed false thirdAttemptTimed ∧ ∃ earlier last,
      Goes typeScript "b" "k" 0 (untimed thirdAttemptTimed) (.ok 7) earlier last :=
  createTicket_goes createTicket_runs_thirdAttempt

theorem create_ticket_goes_thirdAttempt :
    ∃ earlier last, Goes python "b" "k" 0 thirdAttempt (.ok 7) earlier last :=
  create_ticket_goes create_ticket_runs_thirdAttempt

/-- The answers of `thirdAttempt`. -/
def thirdAttemptAnswers : ℕ → Fetched String
  | 0 => .responded false 429
  | 1 => .timedOut none
  | _ => .responded true 201

theorem follows_thirdAttempt {tr : List (Exchange String ℕ)}
    (hfetched : fetched tr = [.responded false 429, .timedOut none, .responded true 201])
    (hjson : ∀ answer, ⟨.json, answer⟩ ∈ tr → answer = .ok 7) :
    Follows thirdAttemptAnswers (.ok 7) tr := by
  refine ⟨?_, hjson⟩
  intro i x hx
  rw [hfetched] at hx
  rcases i with _ | _ | _ | i
  · cases hx
    rfl
  · cases hx
    rfl
  · cases hx
    rfl
  · cases hx

theorem createTicket_agrees_thirdAttempt :
    untimed thirdAttemptTimed = thirdAttempt ∧
      (.ok 7 : Except (Failure String) ℕ) = Except.mapError Failure.toPython (.ok 7) := by
  refine createTicket_agrees (f := thirdAttemptAnswers) ?_ createTicket_runs_thirdAttempt
    (follows_thirdAttempt rfl ?_) create_ticket_runs_thirdAttempt (follows_thirdAttempt rfl ?_)
  · intro i err h
    rcases i with _ | _ | i <;> cases h
  · intro answer hmem
    simpa [thirdAttemptTimed] using hmem
  · intro answer hmem
    simpa [thirdAttempt] using hmem

end InterviewPrep.TicketRetry
