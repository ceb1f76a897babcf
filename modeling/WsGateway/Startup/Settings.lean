import WsGateway.Lib.Stream

/-!
# The settings

`Config` reads its settings from environment variables. A number is read with
`stoi`, which stops at the first character that is no digit, and cast to the type of
its field, which drops the high bits. The result is the number that was written only
if nothing had to be dropped.
-/

namespace WsGateway.Startup

open Lib Lib.Stream

abbrev Environment := Bytes → Option Bytes

def getEnvString (env : Environment) (varName defaultValue : Bytes) : Bytes :=
  match env varName with
  | none => defaultValue
  | some val => if val = [] then defaultValue else val

def getEnvInt (env : Environment) (varName : Bytes) (defaultValue : Int) : Int :=
  match env varName with
  | none => defaultValue
  | some val =>
      if val = [] then defaultValue
      else
        match stoi val with
        | .ok n => n
        | .error _ => defaultValue

structure Config where
  hostIp : Bytes
  serverAddress : Bytes
  numberOfPorts : UInt8
  basePort : UInt16
  httpRequestAddress : Bytes
  httpRequestPort : Bytes
  numberOfWorkerThreads : UInt32
  numberOfIoThreads : UInt32
  numberOfTimerThreads : UInt32
  scylladbAddress : Bytes
  scylladbPort : Bytes
  scylladbKeyspaceName : Bytes
  useMtls : Bool
  scylladbReplicationFactor : UInt32
  scylladbStrategy : Bytes
  scylladbTableName : Bytes
  caKeyFileName : Bytes
  certDirname : Bytes
  mtlsBasePort : UInt16
  privateKeyFilename : Bytes
  serverCertFilename : Bytes
  serverPhrase : Bytes

/-- `Config::Config`, where `host` is what `getHostAndIP` finds. -/
def Config.ofEnv (env : Environment) (host : Option Bytes) : Config where
  hostIp := host.getD []
  serverAddress := getEnvString env (ascii "WSS_ADDRESS") (ascii "0.0.0.0")
  numberOfPorts := UInt8.ofInt (getEnvInt env (ascii "WSS_NUMBER_OF_PORTS") 24)
  basePort := UInt16.ofInt (getEnvInt env (ascii "WSS_PORT") 8020)
  httpRequestAddress := getEnvString env (ascii "WSS_HTTP_REQUEST_ADDRESS") (ascii "127.0.0.1")
  httpRequestPort := getEnvString env (ascii "WSS_HTTP_REQUEST_PORT") (ascii "8082")
  numberOfWorkerThreads := UInt32.ofInt (getEnvInt env (ascii "WSS_NUMBER_OF_WORKER_THREADS") 24)
  numberOfIoThreads := UInt32.ofInt (getEnvInt env (ascii "WSS_NUMBER_OF_IO_THREADS") 24)
  numberOfTimerThreads := UInt32.ofInt (getEnvInt env (ascii "WSS_NUMBER_OF_TIMER_THREADS") 2)
  scylladbAddress := getEnvString env (ascii "WSS_SCYLLA_DB_ADDRESS") (ascii "127.0.0.1")
  scylladbPort := getEnvString env (ascii "WSS_SCYLLADB_PORT") (ascii "9042")
  scylladbKeyspaceName := getEnvString env (ascii "WSS_SCYLLADB_KEYSPACE_NAME") (ascii "vin")
  useMtls := (getEnvString env (ascii "WSS_USE_MTLS") (ascii "false")).map toLower == ascii "true"
  scylladbReplicationFactor :=
    UInt32.ofInt (getEnvInt env (ascii "WSS_SCYLLADB_REPLICATION_FACTOR") 3)
  scylladbStrategy :=
    getEnvString env (ascii "WSS_SCYLLADB_STRATEGY") (ascii "NetworkTopologyStrategy")
  scylladbTableName := getEnvString env (ascii "WSS_SCYLLADB_TABLE_NAME") (ascii "vehicles")
  caKeyFileName := getEnvString env (ascii "WSS_CA_FILE_NAME") (ascii "ca.crt")
  certDirname := getEnvString env (ascii "WSS_CA_DIRECTORY_NAME") []
  mtlsBasePort := UInt16.ofInt (getEnvInt env (ascii "WSS_MTLS_BASE_PORT") 8443)
  privateKeyFilename := getEnvString env (ascii "WSS_PRIVATE_KEY_FILE_NAME") (ascii "server.key")
  serverCertFilename :=
    getEnvString env (ascii "WSS_SERVER_CERTIFICATE_FILE_NAME") (ascii "server.crt")
  serverPhrase := getEnvString env (ascii "WSS_SERVER_PHRASE") (ascii "1234567890")

/-! ## The numeric fields -/

/-- A field that is read with `getEnvInt`: its variable, its default, the bits of its
unsigned type, and its value in a configuration. -/
structure NumericField where
  varName : Bytes
  default : Nat
  width : Nat
  value : Config → Nat
  default_lt : default < 2 ^ width
  width_le : width ≤ 32
  default_lt_int : default < 2 ^ 31

def numberOfPortsField : NumericField where
  varName := ascii "WSS_NUMBER_OF_PORTS"
  default := 24
  width := 8
  value c := c.numberOfPorts.toNat
  default_lt := by decide
  width_le := by decide
  default_lt_int := by decide

def basePortField : NumericField where
  varName := ascii "WSS_PORT"
  default := 8020
  width := 16
  value c := c.basePort.toNat
  default_lt := by decide
  width_le := by decide
  default_lt_int := by decide

def mtlsBasePortField : NumericField where
  varName := ascii "WSS_MTLS_BASE_PORT"
  default := 8443
  width := 16
  value c := c.mtlsBasePort.toNat
  default_lt := by decide
  width_le := by decide
  default_lt_int := by decide

/-- The three thread counts and the replication factor have 32 bits. -/
def field32 (varName : Bytes) (default : Nat) (value : Config → UInt32)
    (h : default < 2 ^ 31) : NumericField where
  varName := varName
  default := default
  width := 32
  value c := (value c).toNat
  default_lt := by omega
  width_le := by decide
  default_lt_int := h

def numericFields : List NumericField :=
  [numberOfPortsField, basePortField, mtlsBasePortField,
    field32 (ascii "WSS_NUMBER_OF_WORKER_THREADS") 24 Config.numberOfWorkerThreads (by decide),
    field32 (ascii "WSS_NUMBER_OF_IO_THREADS") 24 Config.numberOfIoThreads (by decide),
    field32 (ascii "WSS_NUMBER_OF_TIMER_THREADS") 2 Config.numberOfTimerThreads (by decide),
    field32 (ascii "WSS_SCYLLADB_REPLICATION_FACTOR") 3 Config.scylladbReplicationFactor
      (by decide)]

theorem value_ofEnv {field : NumericField} (h : field ∈ numericFields) (env : Environment)
    (host : Option Bytes) :
    field.value (Config.ofEnv env host) =
      (getEnvInt env field.varName field.default % 2 ^ field.width).toNat := by
  simp only [numericFields, List.mem_cons, List.not_mem_nil, or_false] at h
  rcases h with rfl | rfl | rfl | rfl | rfl | rfl | rfl
  · exact toNat_uint8 _
  · exact toNat_uint16 _
  · exact toNat_uint16 _
  · exact toNat_uint32 _
  · exact toNat_uint32 _
  · exact toNat_uint32 _
  · exact toNat_uint32 _

/-! ## As written, or the default -/

/-- The whole value is the decimal numeral of a number of the field's type. -/
def NumericField.Representable (field : NumericField) (val : Bytes) : Prop :=
  val ≠ [] ∧ (val.all isDigit) = true ∧ digitsValue val < 2 ^ field.width

instance (field : NumericField) (val : Bytes) : Decidable (field.Representable val) :=
  inferInstanceAs (Decidable (_ ∧ _ ∧ _))

def NumericField.written (field : NumericField) : Option Bytes → Nat
  | none => field.default
  | some val => if field.Representable val then digitsValue val else field.default

/-- What is written is a number that fits into an `int`, or has no number that fits into
an `int` at its front, except by chance one that the cast turns into the default. -/
def NumericField.Sound (field : NumericField) (val : Bytes) : Prop :=
  if field.Representable val then digitsValue val < 2 ^ 31
  else ∀ n rest, readInt val = some (n, rest) → -2 ^ 31 ≤ n → n < 2 ^ 31 →
    n % 2 ^ field.width = field.default

theorem getEnvInt_unset {env : Environment} {varName : Bytes} (h : env varName = none)
    (defaultValue : Int) : getEnvInt env varName defaultValue = defaultValue := by
  rw [getEnvInt, h]

theorem getEnvInt_set {env : Environment} {varName val : Bytes} (h : env varName = some val)
    (defaultValue : Int) : getEnvInt env varName defaultValue =
      match readInt val with
      | none => defaultValue
      | some (n, _) => if -2 ^ 31 ≤ n ∧ n < 2 ^ 31 then n else defaultValue := by
  rw [getEnvInt, h]
  dsimp only
  split
  · rename_i hnil
    subst hnil
    rfl
  · rw [stoi_eq]
    cases hread : readInt val with
    | none => rfl
    | some read =>
        rcases read with ⟨n, rest⟩
        dsimp only
        by_cases hrange : -2 ^ 31 ≤ n ∧ n < 2 ^ 31
        · rw [if_pos hrange, if_pos hrange]
        · rw [if_neg hrange, if_neg hrange]

theorem default_cast (field : NumericField) :
    ((field.default : Int) % 2 ^ field.width).toNat = field.default := by
  have hlt : (field.default : Int) < 2 ^ field.width := by exact_mod_cast field.default_lt
  rw [Int.emod_eq_of_lt (by omega) hlt, Int.toNat_natCast]

theorem cast_eq_default_iff (field : NumericField) (n : Int) :
    (n % 2 ^ field.width).toNat = field.default ↔ n % 2 ^ field.width = field.default := by
  have hpos : (0 : Int) ≤ n % 2 ^ field.width := Int.emod_nonneg n (by positivity)
  omega

theorem cast_not_representable {field : NumericField} {env : Environment} {val : Bytes}
    (hval : env field.varName = some val) (h : ¬ field.Representable val) :
    (getEnvInt env field.varName field.default % 2 ^ field.width).toNat = field.default ↔
      field.Sound val := by
  rw [NumericField.Sound, if_neg h, getEnvInt_set hval]
  cases hread : readInt val with
  | none => exact iff_of_true (default_cast field) (by simp)
  | some read =>
      rcases read with ⟨n, rest⟩
      dsimp only
      split
      · rename_i hrange
        rw [cast_eq_default_iff]
        constructor
        · intro hcast m rest' hm _ _
          cases hm
          exact hcast
        · intro hsound
          exact hsound n rest rfl hrange.1 hrange.2
      · rename_i hrange
        refine iff_of_true (default_cast field) ?_
        intro m rest' hm hlow hhigh
        cases hm
        exact absurd ⟨hlow, hhigh⟩ hrange

theorem cast_representable {field : NumericField} {env : Environment} {val : Bytes}
    (hval : env field.varName = some val) (h : field.Representable val) :
    (getEnvInt env field.varName field.default % 2 ^ field.width).toNat = digitsValue val ↔
      field.Sound val := by
  rw [NumericField.Sound, if_pos h, getEnvInt_set hval]
  rcases h with ⟨hne, hdigits, hlt⟩
  rw [readInt_digits hne (List.all_eq_true.mp hdigits)]
  dsimp only
  have hwidth : (digitsValue val : Int) < 2 ^ field.width := by exact_mod_cast hlt
  split
  · rename_i hrange
    refine iff_of_true ?_ (by omega)
    rw [Int.emod_eq_of_lt (by omega) hwidth, Int.toNat_natCast]
  · -- too large for an `int`, and so is not the default
    rename_i hrange
    rw [default_cast]
    have hdefault := field.default_lt_int
    omega

/-- Each numeric field has the number that is written, or else its default, exactly if
the value of its variable is sound for it. -/
theorem numeric_setting_iff {field : NumericField} (h : field ∈ numericFields)
    (env : Environment) (host : Option Bytes) :
    field.value (Config.ofEnv env host) = field.written (env field.varName) ↔
      ∀ val, env field.varName = some val → field.Sound val := by
  rw [value_ofEnv h]
  cases hval : env field.varName with
  | none =>
      rw [getEnvInt_unset hval]
      exact iff_of_true (default_cast field) (by simp)
  | some val =>
      simp only [Option.some.injEq, forall_eq', NumericField.written]
      split
      · rename_i hwritten
        exact cast_representable hval hwritten
      · rename_i hwritten
        exact cast_not_representable hval hwritten

def setOnly (varName val : Bytes) : Environment := fun name =>
  if name = varName then some val else none

theorem numeric_setting_port :
    (Config.ofEnv (setOnly (ascii "WSS_PORT") (ascii "09001")) none).basePort.toNat = 9001 ∧
      basePortField.written (some (ascii "09001")) = 9001 := by
  have hwritten : basePortField.written (some (ascii "09001")) = 9001 := by decide
  refine ⟨?_, hwritten⟩
  rw [← hwritten]
  refine (@numeric_setting_iff basePortField (by simp [numericFields])
    (setOnly (ascii "WSS_PORT") (ascii "09001")) none).mpr ?_
  intro val hval
  cases hval
  have hrep : basePortField.Representable (ascii "09001") := by decide
  rw [NumericField.Sound, if_pos hrep]
  decide

/-- 300 ports do not fit into 8 bits and become 44, and of 80 with text behind it only
the number is taken. -/
theorem setting_not_as_written :
    numberOfPortsField.value
        (Config.ofEnv (setOnly (ascii "WSS_NUMBER_OF_PORTS") (ascii "300")) none) = 44 ∧
      numberOfPortsField.written (some (ascii "300")) = 24 ∧
      basePortField.value (Config.ofEnv (setOnly (ascii "WSS_PORT") (ascii "80x")) none) = 80 ∧
      basePortField.written (some (ascii "80x")) = 8020 := by
  refine ⟨?_, ?_, ?_, ?_⟩
  · rfl
  · decide
  · rfl
  · decide

end WsGateway.Startup
