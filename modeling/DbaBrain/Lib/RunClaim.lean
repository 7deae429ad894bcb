import DbaBrain.Foundation.Text

/-!
# Who owns a run that is still running

The claim a run row carries, and the two verdicts that say whether the row may
be closed by somebody else.
-/

namespace DbaBrain.Lib.RunClaim

open DbaBrain.Foundation.Text

def foreignHostGraceSeconds : Int := 3600

/-- What `int` makes of a recorded pid. -/
inductive RawPid
  | absent
  | unreadable
  | pid (value : Int)
  deriving DecidableEq

/-- The fields of `metadata_json` the claim rules read; an absent text is empty. -/
structure Metadata where
  claimPid : RawPid
  claimHost : String
  claimNode : String
  pid : RawPid
  hostName : String
  appCommandId : String
  deriving DecidableEq

def Metadata.empty : Metadata :=
  { claimPid := .absent, claimHost := "", claimNode := "", pid := .absent, hostName := "", appCommandId := "" }

/-- The metadata with the fields a run writes when it claims its key. -/
def Metadata.claimed (metadata : Metadata) (pid : Int) (host node : String) : Metadata :=
  { metadata with
    claimPid := .pid pid
    claimHost := host
    claimNode := if strip node = "" then metadata.claimNode else strip node }

def claimNode (metadata : Metadata) : String := strip metadata.claimNode

/-- The pid and host recorded on a row: the claim's, else the daemon's child. -/
def claimOwner (metadata : Metadata) (hostFallback : String) : Option Int × String :=
  match metadata.claimPid with
  | .pid value => (some value, metadata.claimHost)
  | _ =>
      match metadata.pid with
      | .pid value => (some value, if metadata.hostName = "" then hostFallback else metadata.hostName)
      | _ => (none, metadata.claimHost)

/-- Claimed by this node under a host name it no longer has. -/
def leftByAnEarlierHostOfThisNode (metadata : Metadata) (host thisHost thisNode : String) : Bool :=
  claimNode metadata ≠ "" && thisNode ≠ "" && claimNode metadata = thisNode && host ≠ "" && host ≠ thisHost

structure ReapVerdict where
  reap : Bool
  reason : String
  timedOut : Bool

def ownerVerdict (metadata : Metadata) (thisHost : String) (elapsedSeconds timeoutSeconds : Int)
    (pidAlive : Option Bool) (foreignGraceSeconds : Int) (thisNode hostFallback : String) : ReapVerdict :=
  match claimOwner metadata hostFallback with
  | (some pid, host) =>
      if host ≠ "" ∧ host = thisHost then
        if pidAlive = some true then
          ⟨false, "pid " ++ toString pid ++ " is alive on " ++ host ++ ": the run is still going", false⟩
        else
          ⟨true, "pid " ++ toString pid ++ " is gone on " ++ host, false⟩
      else if leftByAnEarlierHostOfThisNode metadata host thisHost thisNode then
        ⟨true, "claimed by pid " ++ toString pid ++ " on " ++ host ++ ", a host name this node (" ++ thisHost ++
          ") no longer has: its processes ended with that host", false⟩
      else if host ≠ "" then
        if timeoutSeconds = 0 then
          ⟨false, "claimed by pid " ++ toString pid ++ " on " ++ host ++
            ": another host's service, closed only by its own host", false⟩
        else if max timeoutSeconds 0 + foreignGraceSeconds ≤ elapsedSeconds then
          ⟨true, "claimed by pid " ++ toString pid ++ " on " ++ host ++ ", which cannot be checked from " ++ thisHost ++
            "; " ++ toString elapsedSeconds ++ "s is past its timeout plus " ++ toString foreignGraceSeconds ++
            "s of grace", false⟩
        else
          ⟨false, "claimed by pid " ++ toString pid ++ " on " ++ host ++
            ": another host's run is left alone until its timeout plus " ++ toString foreignGraceSeconds ++
            "s of grace", false⟩
      else
        byAge elapsedSeconds timeoutSeconds
  | (none, _) => byAge elapsedSeconds timeoutSeconds
where
  /-- No claim recorded: age alone. -/
  byAge (elapsedSeconds timeoutSeconds : Int) : ReapVerdict :=
    if timeoutSeconds ≠ 0 ∧ timeoutSeconds ≤ elapsedSeconds then
      ⟨true, "no claim recorded and " ++ toString elapsedSeconds ++ "s is past " ++ toString timeoutSeconds ++ "s", false⟩
    else
      ⟨false, "no claim recorded and still within its timeout", false⟩

/-- May this running row be closed and its key released? -/
def reapVerdict (metadata : Metadata) (thisHost : String) (elapsedSeconds timeoutSeconds : Int)
    (pidAlive : Option Bool) (foreignGraceSeconds : Int) (thisNode : String) (atTimeout : Bool)
    (hostFallback : String) : ReapVerdict :=
  let verdict := ownerVerdict metadata thisHost elapsedSeconds timeoutSeconds pidAlive foreignGraceSeconds thisNode
    hostFallback
  if verdict.reap || !atTimeout then
    verdict
  else if timeoutSeconds ≠ 0 ∧ timeoutSeconds ≤ elapsedSeconds then
    ⟨true, toString elapsedSeconds ++ "s is past its timeout of " ++ toString timeoutSeconds ++ "s", true⟩
  else
    verdict

/-- The same question at daemon startup, when the daemon owns no children. -/
def startupVerdict (metadata : Metadata) (thisHost : String) (elapsedSeconds timeoutSeconds : Int)
    (pidAlive : Option Bool) (foreignGraceSeconds : Int) (thisNode hostFallback : String) : ReapVerdict :=
  match claimOwner metadata hostFallback with
  | (some pid, host) =>
      if host ≠ "" ∧ host ≠ thisHost then
        reapVerdict metadata thisHost elapsedSeconds timeoutSeconds none foreignGraceSeconds thisNode false hostFallback
      else if pidAlive = some true then
        ⟨false, "pid " ++ toString pid ++ " outlived its daemon and is still working", false⟩
      else
        ⟨true, "pid " ++ toString pid ++ " is gone", false⟩
  | (none, _) => ⟨true, "left open by a daemon that is no longer running, and this one owns no children yet", false⟩

/-! ## Owners that keep their rows -/

section Verdicts

variable {metadata : Metadata} {thisHost thisNode hostFallback : String} {elapsed timeout : Int}

def AliveHere (metadata : Metadata) (hostFallback thisHost : String) (pidAlive : Int → Bool) : Prop :=
  ∃ pid, claimOwner metadata hostFallback = (some pid, thisHost) ∧ thisHost ≠ "" ∧ pidAlive pid = true

/-- The row records a pid of another host, and does not name this node. -/
def OwnedElsewhere (metadata : Metadata) (hostFallback thisHost thisNode : String) : Prop :=
  ∃ pid host, claimOwner metadata hostFallback = (some pid, host) ∧ host ≠ "" ∧ host ≠ thisHost ∧
    ¬ (claimNode metadata ≠ "" ∧ claimNode metadata = thisNode)

/-- Before the timeout and another host's grace have passed; with no timeout, always. -/
def WithinGrace (elapsed timeout : Int) : Prop := timeout = 0 ∨ elapsed < max timeout 0 + foreignHostGraceSeconds

theorem OwnedElsewhere.ownerVerdict_reap (elsewhere : OwnedElsewhere metadata hostFallback thisHost thisNode)
    (within : WithinGrace elapsed timeout) (pidAlive : Option Bool) :
    (ownerVerdict metadata thisHost elapsed timeout pidAlive foreignHostGraceSeconds thisNode hostFallback).reap =
      false := by
  obtain ⟨pid, host, owner, named, different, notThisNode⟩ := elsewhere
  have notEarlier : leftByAnEarlierHostOfThisNode metadata host thisHost thisNode = false := by
    rw [leftByAnEarlierHostOfThisNode]
    by_contra earlier
    simp only [Bool.not_eq_false, Bool.and_eq_true, decide_eq_true_eq] at earlier
    exact notThisNode ⟨earlier.1.1.1.1, earlier.1.1.2⟩
  rw [ownerVerdict, owner]
  simp only [named, different, ne_eq, not_false_eq_true, and_false, if_false, notEarlier, Bool.false_eq_true, if_true]
  rcases within with service | early
  · simp [service]
  · rw [if_neg (not_le.mpr early)]
    split
    · rfl
    · rfl

theorem reapVerdict_of_ownerVerdict {pidAlive : Option Bool} :
    reapVerdict metadata thisHost elapsed timeout pidAlive foreignHostGraceSeconds thisNode false hostFallback =
      ownerVerdict metadata thisHost elapsed timeout pidAlive foreignHostGraceSeconds thisNode hostFallback := by
  simp [reapVerdict]

theorem OwnedElsewhere.startupVerdict_reap (elsewhere : OwnedElsewhere metadata hostFallback thisHost thisNode)
    (within : WithinGrace elapsed timeout) (pidAlive : Option Bool) :
    (startupVerdict metadata thisHost elapsed timeout pidAlive foreignHostGraceSeconds thisNode hostFallback).reap =
      false := by
  have held := elsewhere.ownerVerdict_reap within none
  obtain ⟨pid, host, owner, named, different, _⟩ := elsewhere
  rw [startupVerdict, owner]
  simp only [named, different, ne_eq, not_false_eq_true, and_self, if_true]
  rw [reapVerdict_of_ownerVerdict]
  exact held

theorem ownerVerdict_reap_of_alive {pid : Int} (owner : claimOwner metadata hostFallback = (some pid, thisHost))
    (named : thisHost ≠ "") :
    (ownerVerdict metadata thisHost elapsed timeout (some true) foreignHostGraceSeconds thisNode hostFallback).reap =
      false := by
  rw [ownerVerdict, owner]
  simp [named]

theorem startupVerdict_reap_of_alive {pid : Int} (owner : claimOwner metadata hostFallback = (some pid, thisHost)) :
    (startupVerdict metadata thisHost elapsed timeout (some true) foreignHostGraceSeconds thisNode hostFallback).reap =
      false := by
  rw [startupVerdict, owner]
  simp

end Verdicts

end DbaBrain.Lib.RunClaim
