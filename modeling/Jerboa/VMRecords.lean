import Jerboa.CrashRecovery
import Jerboa.JsonCodec
import Jerboa.ValueMap

/-!
# The formats of VM records

`FileStore` writes a VM as `state.json`, `SQLiteStore` as a row of the table
`vms`.  Each store has lists of its own of the fields it writes and of those it
reads back, and neither of them reads `daemon_recovered`.
-/

namespace Jerboa.Daemon

open Vm Json Json.Codec List

/-! ### String types -/

def Policy.text : RestartPolicy → String
  | .unset => ""
  | .never => "never"
  | .onFailure => "on-failure"
  | .always => "always"
  | .other text => text

def Policy.ofText (text : String) : RestartPolicy :=
  if text = "" then .unset
  else if text = "never" then .never
  else if text = "on-failure" then .onFailure
  else if text = "always" then .always
  else .other text

theorem Policy.text_ofText (text : String) : Policy.text (Policy.ofText text) = text := by
  unfold Policy.ofText
  split_ifs with unset never onFailure always
  all_goals simp_all [Policy.text]

def Lifecycle.text : State → String
  | .created => "created"
  | .starting => "starting"
  | .running => "running"
  | .stopping => "stopping"
  | .stopped => "stopped"
  | .unknown text => text

def Lifecycle.ofText (text : String) : State :=
  if text = "created" then .created
  else if text = "starting" then .starting
  else if text = "running" then .running
  else if text = "stopping" then .stopping
  else if text = "stopped" then .stopped
  else .unknown text

theorem Lifecycle.text_ofText (text : String) : Lifecycle.text (Lifecycle.ofText text) = text := by
  unfold Lifecycle.ofText
  split_ifs with created starting running stopping stopped
  all_goals simp_all [Lifecycle.text]

/-! ### Configurations -/

def portMapCodec : Codec PortMap :=
  struct ⟨0, 0, "", ""⟩ id
    (fun p => [
      uint16.member "HostPort" p.hostPort,
      uint16.member "GuestPort" p.guestPort,
      string.member "Protocol" p.protocol,
      string.member "BindAddr" p.bindAddr].flatten)
    (fun members => do
      return {
        hostPort := ← uint16.read "HostPort" members
        guestPort := ← uint16.read "GuestPort" members
        protocol := ← string.read "Protocol" members
        bindAddr := ← string.read "BindAddr" members })
    rfl
    (by
      intro p
      simp (disch := decide) only [flatten_cons, read_member_self, read_member_of_ne]
      rfl)

def volumeMountCodec : Codec VolumeMount :=
  struct ⟨"", "", false, ""⟩ id
    (fun m => [
      string.member "DiskPath" m.diskPath,
      string.member "GuestPath" m.guestPath,
      bool.member "ReadOnly" m.readOnly,
      string.member "Label" m.label].flatten)
    (fun members => do
      return {
        diskPath := ← string.read "DiskPath" members
        guestPath := ← string.read "GuestPath" members
        readOnly := ← bool.read "ReadOnly" members
        label := ← string.read "Label" members })
    rfl
    (by
      intro m
      simp (disch := decide) only [flatten_cons, read_member_self, read_member_of_ne]
      rfl)

def healthCheckCodec : Codec HealthCheckConfig :=
  struct ⟨"", 0, "", 0, 0, 0⟩ id
    (fun c => [
      string.member "Type" c.type,
      int.member "Port" c.port,
      string.member "Path" c.path,
      int.member "Interval" c.interval,
      int.member "Timeout" c.timeout,
      int.member "Retries" c.retries].flatten)
    (fun members => do
      return {
        type := ← string.read "Type" members
        port := ← int.read "Port" members
        path := ← string.read "Path" members
        interval := ← int.read "Interval" members
        timeout := ← int.read "Timeout" members
        retries := ← int.read "Retries" members })
    rfl
    (by
      intro c
      simp (disch := decide) only [flatten_cons, read_member_self, read_member_of_ne]
      rfl)

def policyCodec : Codec RestartPolicy :=
  text Policy.ofText Policy.text Policy.text_ofText

def restartCodec : Codec RestartConfig :=
  struct ⟨.unset, 0⟩ (fun r => { r with policy := policyCodec.normal r.policy })
    (fun r => [
      policyCodec.member "Policy" r.policy,
      int.member "MaxRetries" r.maxRetries].flatten)
    (fun members => do
      return {
        policy := ← policyCodec.read "Policy" members
        maxRetries := ← int.read "MaxRetries" members })
    rfl
    (by
      intro r
      simp (disch := decide) only [flatten_cons, read_member_self, read_member_of_ne]
      rfl)

/-- A configuration with its restart policy as the string that it is in the
source. -/
def normalConfig (cfg : Config) : Config :=
  { cfg with restart := restartCodec.normal cfg.restart }

def configCodec : Codec Config :=
  struct Config.zero normalConfig
    (fun cfg => [
      string.omitEmpty "image_digest" cfg.imageDigest,
      string.member "ImagePath" cfg.imagePath,
      string.member "ImageRef" cfg.imageRef,
      string.member "Memory" cfg.memory,
      int.member "CPUs" cfg.cpus,
      string.member "NetworkName" cfg.networkName,
      string.member "TapName" cfg.tapName,
      (slice portMapCodec).member "PortMaps" cfg.portMaps,
      (slice string).member "Env" cfg.env,
      string.member "Name" cfg.name,
      (slice volumeMountCodec).member "Volumes" cfg.volumes,
      bool.member "Attach" cfg.attach,
      string.member "IPAddress" cfg.ipAddress,
      string.member "GatewayIP" cfg.gatewayIP,
      string.member "BridgeName" cfg.bridgeName,
      string.member "SubnetMask" cfg.subnetMask,
      (pointer healthCheckCodec struct_encode_ne_null).member "HealthCheck" cfg.healthCheck,
      restartCodec.member "Restart" cfg.restart,
      uint64.member "CPUShares" cfg.cpuShares,
      int.member "MemoryMax" cfg.memoryMax,
      uint64.member "DiskIOPS" cfg.diskIOPS,
      int.member "DiskBPS" cfg.diskBPS].flatten)
    (fun members => do
      return {
        imageDigest := ← string.read "image_digest" members
        imagePath := ← string.read "ImagePath" members
        imageRef := ← string.read "ImageRef" members
        memory := ← string.read "Memory" members
        cpus := ← int.read "CPUs" members
        networkName := ← string.read "NetworkName" members
        tapName := ← string.read "TapName" members
        portMaps := ← (slice portMapCodec).read "PortMaps" members
        env := ← (slice string).read "Env" members
        name := ← string.read "Name" members
        volumes := ← (slice volumeMountCodec).read "Volumes" members
        attach := ← bool.read "Attach" members
        ipAddress := ← string.read "IPAddress" members
        gatewayIP := ← string.read "GatewayIP" members
        bridgeName := ← string.read "BridgeName" members
        subnetMask := ← string.read "SubnetMask" members
        healthCheck :=
          ← (pointer healthCheckCodec struct_encode_ne_null).read "HealthCheck" members
        restart := ← restartCodec.read "Restart" members
        cpuShares := ← uint64.read "CPUShares" members
        memoryMax := ← int.read "MemoryMax" members
        diskIOPS := ← uint64.read "DiskIOPS" members
        diskBPS := ← int.read "DiskBPS" members })
    rfl
    (by
      intro cfg
      simp (disch := decide) only [flatten_cons, flatten_nil, read_member_self,
        read_member_of_ne, read_omitEmpty_of_ne]
      have ports : (slice portMapCodec).normal cfg.portMaps = cfg.portMaps := map_id _
      have env : (slice string).normal cfg.env = cfg.env := map_id _
      have volumes : (slice volumeMountCodec).normal cfg.volumes = cfg.volumes := map_id _
      have health : (pointer healthCheckCodec struct_encode_ne_null).normal cfg.healthCheck =
          cfg.healthCheck := Option.map_id'
      rw [read_omitEmpty_self, ports, env, volumes, health]
      · rfl
      · simp (disch := decide) only [read_nil, read_member_of_ne])

/-! ### Records -/

/-- Points in time as text: `Format` and `Parse` with `time.RFC3339Nano`, which
has all digits of a second. -/
structure TimeText where
  format : Time → String
  parse : String → Option Time
  parse_format : ∀ t, parse (format t) = some t

def TimeText.codec (time : TimeText) : Codec Time where
  zero := 0
  encode t := .string (time.format t)
  decode
    | .string text => time.parse text
    | .null => some 0
    | _ => none
  normal := id
  normal_zero := rfl
  decode_encode := time.parse_format

theorem TimeText.codec_encode_ne_null (time : TimeText) (t : Time) :
    time.codec.encode t ≠ .null :=
  Json.noConfusion

def stateCodec : Codec State :=
  text Lifecycle.ofText Lifecycle.text Lifecycle.text_ofText

/-- A record with its state and its restart policy as the strings that they are
in the source. -/
def normalState (st : VMState) : VMState :=
  { st with config := normalConfig st.config, state := stateCodec.normal st.state }

def TimeText.vmStateCodec (time : TimeText) : Codec VMState :=
  let timePointer := pointer time.codec time.codec_encode_ne_null
  struct ⟨"", Config.zero, .unknown "", 0, none, none, false, "", 0, 0⟩ normalState
    (fun st => [
      string.member "id" st.id,
      configCodec.member "config" st.config,
      stateCodec.member "state" st.state,
      time.codec.member "created_at" st.createdAt,
      timePointer.omitEmpty "started_at" st.startedAt,
      timePointer.omitEmpty "stopped_at" st.stoppedAt,
      bool.omitEmpty "daemon_recovered" st.daemonRecovered,
      string.omitEmpty "health_status" st.healthStatus,
      nat.omitEmpty "restart_count" st.restartCount,
      nat.omitEmpty "pid" st.pid].flatten)
    (fun members => do
      return {
        id := ← string.read "id" members
        config := ← configCodec.read "config" members
        state := ← stateCodec.read "state" members
        createdAt := ← time.codec.read "created_at" members
        startedAt := ← timePointer.read "started_at" members
        stoppedAt := ← timePointer.read "stopped_at" members
        daemonRecovered := ← bool.read "daemon_recovered" members
        healthStatus := ← string.read "health_status" members
        restartCount := ← nat.read "restart_count" members
        pid := ← nat.read "pid" members })
    rfl
    (by
      intro st
      simp (disch := decide) only [flatten_cons, flatten_nil, read_member_self,
        read_member_of_ne, read_omitEmpty_of_ne]
      have pointers (t : Option Time) : timePointer.normal t = t := Option.map_id'
      have pid := read_omitEmpty_self nat "pid" st.pid (read_nil nat "pid")
      simp (disch := simp (disch := decide) only [read_nil, read_omitEmpty_of_ne]) only
        [read_omitEmpty_self, pointers, pid]
      rfl)

/-- A row of the table `vms`.  The column `config` holds JSON text, the times are
text as well. -/
structure Row where
  id : String
  config : Json
  state : String
  createdAt : String
  startedAt : Option String
  stoppedAt : Option String
  daemonRecovered : Int
  healthStatus : String
  restartCount : Int
  pid : Int

def boolToInt (b : Bool) : Int :=
  if b then 1 else 0

/-- `sqlUpsertVM` with the arguments of `writeVM`: an existing row keeps its
`created_at`. -/
def TimeText.upsertVM (time : TimeText) (old : Option Row) (st : VMState) : Row where
  id := st.id
  config := configCodec.encode st.config
  state := Lifecycle.text st.state
  createdAt := (old.map Row.createdAt).getD (time.format st.createdAt)
  startedAt := st.startedAt.map time.format
  stoppedAt := st.stoppedAt.map time.format
  daemonRecovered := boolToInt st.daemonRecovered
  healthStatus := st.healthStatus
  restartCount := st.restartCount
  pid := st.pid

/-- What `SQLiteStore.Restore` scans of a row; a row whose configuration or
creation time cannot be read is skipped, another time that cannot is left out. -/
def TimeText.scanRow (time : TimeText) (row : Row) : Option VMState := do
  let config ← configCodec.decode row.config
  let createdAt ← time.parse row.createdAt
  return {
    id := row.id
    config := config
    state := Lifecycle.ofText row.state
    createdAt := createdAt
    startedAt := row.startedAt.bind time.parse
    stoppedAt := row.stoppedAt.bind time.parse
    daemonRecovered := row.daemonRecovered != 0
    healthStatus := row.healthStatus
    restartCount := row.restartCount.toNat
    pid := row.pid.toNat }

theorem TimeText.parse_of_scanRow {time : TimeText} {row : Row} {st : VMState}
    (scanned : time.scanRow row = some st) : time.parse row.createdAt = some st.createdAt := by
  obtain ⟨config, -, rest⟩ := Option.bind_eq_some_iff.mp scanned
  obtain ⟨createdAt, parsed, same⟩ := Option.bind_eq_some_iff.mp rest
  cases same
  exact parsed

theorem TimeText.scanRow_upsertVM (time : TimeText) (old : Option Row) (st : VMState)
    (readable : ∀ row, old = some row → (time.scanRow row).isSome) :
    time.scanRow (time.upsertVM old st) = some { normalState st with
      createdAt := (old.bind time.scanRow).elim st.createdAt VMState.createdAt } := by
  have created : time.parse (time.upsertVM old st).createdAt =
      some ((old.bind time.scanRow).elim st.createdAt VMState.createdAt) := by
    cases old with
    | none => exact time.parse_format st.createdAt
    | some row =>
      obtain ⟨before, scanned⟩ := Option.isSome_iff_exists.mp (readable row rfl)
      have parsed := parse_of_scanRow scanned
      rw [Option.bind_some, scanned]
      exact parsed
  have times (t : Option Time) : (t.map time.format).bind time.parse = t := by
    cases t with
    | none => rfl
    | some t => exact time.parse_format t
  have flag : (boolToInt st.daemonRecovered != 0) = st.daemonRecovered := by
    cases st.daemonRecovered <;> rfl
  rw [TimeText.scanRow, created]
  simp only [TimeText.upsertVM, configCodec.decode_encode, times, flag]
  rfl

end Jerboa.Daemon
