import RemoteDesktopTool.Errors
import RemoteDesktopTool.LinesInPieces
import RemoteDesktopTool.LossyUtf8
import RemoteDesktopTool.UnitCommands

namespace RemoteDesktopTool

/-- A path, byte by byte. -/
abbrev PathBuf := List UInt8

structure ServiceSpec where
  name : Text
  description : Text
  executable : PathBuf
  arguments : List Text
  systemWide : Bool
  startNow : Bool
  restartOnFailure : Bool
  runAsUser : Option Text
deriving DecidableEq, Repr

structure AppPaths where
  configDir : PathBuf
  dataDir : PathBuf
  logDir : PathBuf
  runtimeDir : PathBuf
deriving DecidableEq, Repr

/-- `Path::is_absolute`, of a Unix path. -/
def PathBuf.isAbsolute (path : PathBuf) : Bool := path.head? = some 0x2F

namespace ServiceSpec

/-- The spec of the agent. -/
def agent (executable : PathBuf) (systemWide : Bool) : ServiceSpec where
  name := "rdt-agent".toList
  description := "RDT unattended remote access agent".toList
  executable := executable
  arguments := ["agent", "run"].map String.toList
  systemWide := systemWide
  startNow := true
  restartOnFailure := true
  runAsUser := none

def validate (spec : ServiceSpec) : Except RdtError Unit :=
  if spec.name.trim.isEmpty || spec.name.any isWhitespace then
    .error (.new .invalidInput "service name must be non-empty and free of whitespace".toList)
  else if !spec.executable.isAbsolute then
    .error (.new .invalidInput "service executable must be an absolute path".toList)
  else .ok ()

/-- The user that the unit names, with the variable `USER` where it is set and text. -/
def unitUser (spec : ServiceSpec) (userVariable : Option Text) : Text :=
  spec.runAsUser.getD
    (if spec.systemWide then "rdt".toList else userVariable.getD "root".toList)

end ServiceSpec

/-- `str::replace` of a character. -/
def Text.replaceChar (c : Char) (replacement text : Text) : Text :=
  text.flatMap fun d => if d = c then replacement else [d]

/-- What needs no quotes. -/
def isSafe (c : Char) : Bool := c.isAlphanum || c ∈ ['-', '_', '/', '.', ':', '=', ',']

def shellQuote (value : Text) : Text :=
  if value.isEmpty then ['"', '"']
  else if value.all isSafe then value
  else
    ['"'] ++ Text.replaceChar '"' ['\\', '"'] (Text.replaceChar '\\' ['\\', '\\'] value) ++ ['"']

def shellQuotePath (path : PathBuf) : Text := shellQuote (fromUtf8Lossy path)

def renderSystemdUnit (spec : ServiceSpec) (paths : AppPaths) (userVariable : Option Text) : Text :=
  let arguments := [' '].intercalate (spec.arguments.map shellQuote)
  let user := spec.unitUser userVariable
  "[Unit]\n".toList ++
  ("Description=".toList ++ spec.description ++ "\n".toList) ++
  "Documentation=https://github.com/mylab12345/Remote-Desktop-Tool\n".toList ++
  "After=network-online.target\n".toList ++
  "Wants=network-online.target\n\n".toList ++
  "[Service]\n".toList ++
  "Type=notify\n".toList ++
  ("ExecStart=".toList ++ shellQuotePath spec.executable ++ " ".toList ++ arguments ++
    "\n".toList) ++
  ("Environment=RDT_CONFIG_DIR=".toList ++ shellQuotePath paths.configDir ++
    " RDT_DATA_DIR=".toList ++ shellQuotePath paths.dataDir ++
    " RDT_LOG_DIR=".toList ++ shellQuotePath paths.logDir ++
    " RDT_RUNTIME_DIR=".toList ++ shellQuotePath paths.runtimeDir ++ "\n".toList) ++
  (if spec.restartOnFailure then "Restart=on-failure\nRestartSec=5s\n".toList else []) ++
  ("User=".toList ++ user ++ "\n".toList) ++
  (if spec.systemWide then
    "NoNewPrivileges=true\n".toList ++
    "PrivateTmp=true\n".toList ++
    "ProtectSystem=strict\n".toList ++
    "ProtectHome=read-only\n".toList ++
    ("ReadWritePaths=".toList ++ shellQuotePath paths.dataDir ++ " ".toList ++
      shellQuotePath paths.logDir ++ " ".toList ++ shellQuotePath paths.runtimeDir ++
      "\n".toList) ++
    "ProtectKernelTunables=true\n".toList ++
    "ProtectKernelModules=true\n".toList ++
    "ProtectControlGroups=true\n".toList ++
    "RestrictSUIDSGID=true\n".toList ++
    "RestrictNamespaces=true\n".toList ++
    "LockPersonality=true\n".toList ++
    "MemoryDenyWriteExecute=false\n".toList ++
    "SystemCallFilter=@system-service\n".toList ++
    "SystemCallFilter=~@privileged @resources\n".toList
  else []) ++
  "\n[Install]\n".toList ++
  "WantedBy=multi-user.target\n".toList

example : shellQuote "with space".toList = "\"with space\"".toList := by decide

section Template

open UnitSyntax

/-- A directive of the template. -/
def setting (key : String) (value : Text) : Entry := .assignment key.toList value

def unitEntries (spec : ServiceSpec) : List Entry :=
  [.heading "Unit".toList,
    setting "Description" spec.description,
    setting "Documentation" "https://github.com/mylab12345/Remote-Desktop-Tool".toList,
    setting "After" "network-online.target".toList,
    setting "Wants" "network-online.target".toList,
    .blank]

def startEntries (spec : ServiceSpec) (paths : AppPaths) : List Entry :=
  [.heading "Service".toList,
    setting "Type" "notify".toList,
    setting "ExecStart" (shellQuotePath spec.executable ++ ' ' ::
      [' '].intercalate (spec.arguments.map shellQuote)),
    setting "Environment" ("RDT_CONFIG_DIR=".toList ++ shellQuotePath paths.configDir ++
      " RDT_DATA_DIR=".toList ++ shellQuotePath paths.dataDir ++
      " RDT_LOG_DIR=".toList ++ shellQuotePath paths.logDir ++
      " RDT_RUNTIME_DIR=".toList ++ shellQuotePath paths.runtimeDir)]

def restartEntries : List Entry :=
  [setting "Restart" "on-failure".toList, setting "RestartSec" "5s".toList]

def hardeningEntries (paths : AppPaths) : List Entry :=
  [setting "NoNewPrivileges" "true".toList,
    setting "PrivateTmp" "true".toList,
    setting "ProtectSystem" "strict".toList,
    setting "ProtectHome" "read-only".toList,
    setting "ReadWritePaths" (shellQuotePath paths.dataDir ++ ' ' ::
      (shellQuotePath paths.logDir ++ ' ' :: shellQuotePath paths.runtimeDir)),
    setting "ProtectKernelTunables" "true".toList,
    setting "ProtectKernelModules" "true".toList,
    setting "ProtectControlGroups" "true".toList,
    setting "RestrictSUIDSGID" "true".toList,
    setting "RestrictNamespaces" "true".toList,
    setting "LockPersonality" "true".toList,
    setting "MemoryDenyWriteExecute" "false".toList,
    setting "SystemCallFilter" "@system-service".toList,
    setting "SystemCallFilter" "~@privileged @resources".toList]

def installEntries : List Entry :=
  [.blank, .heading "Install".toList, setting "WantedBy" "multi-user.target".toList]

/-- The entries that the unit of a spec is to have. -/
def unitTemplate (spec : ServiceSpec) (paths : AppPaths) (userVariable : Option Text) :
    List Entry :=
  unitEntries spec ++ startEntries spec paths ++
    (if spec.restartOnFailure then restartEntries else []) ++
    [setting "User" (spec.unitUser userVariable)] ++
    (if spec.systemWide then hardeningEntries paths else []) ++ installEntries

def textOf (entries : List Entry) : Text := wholeLines (entries.map Entry.text)

theorem textOf_append (a b : List Entry) : textOf (a ++ b) = textOf a ++ textOf b := by
  rw [textOf, List.map_append, wholeLines_append]
  rfl

theorem textOf_ite (b : Bool) (entries : List Entry) :
    textOf (if b then entries else []) = if b then textOf entries else [] := by
  cases b with
  | true => rfl
  | false => rfl

theorem textOf_setting (key : String) (value : Text) :
    textOf [setting key value] = key.toList ++ '=' :: value ++ ['\n'] := by
  simp [textOf, setting, wholeLines, Entry.text]

theorem textOf_unitEntries (spec : ServiceSpec) :
    textOf (unitEntries spec) =
      "[Unit]\n".toList ++ ("Description=".toList ++ spec.description ++ "\n".toList) ++
      "Documentation=https://github.com/mylab12345/Remote-Desktop-Tool\n".toList ++
      "After=network-online.target\n".toList ++ "Wants=network-online.target\n\n".toList := by
  simp [textOf, unitEntries, setting, wholeLines, Entry.text]

theorem textOf_startEntries (spec : ServiceSpec) (paths : AppPaths) :
    textOf (startEntries spec paths) =
      "[Service]\n".toList ++ "Type=notify\n".toList ++
      ("ExecStart=".toList ++ shellQuotePath spec.executable ++ " ".toList ++
        [' '].intercalate (spec.arguments.map shellQuote) ++ "\n".toList) ++
      ("Environment=RDT_CONFIG_DIR=".toList ++ shellQuotePath paths.configDir ++
        " RDT_DATA_DIR=".toList ++ shellQuotePath paths.dataDir ++
        " RDT_LOG_DIR=".toList ++ shellQuotePath paths.logDir ++
        " RDT_RUNTIME_DIR=".toList ++ shellQuotePath paths.runtimeDir ++ "\n".toList) := by
  simp [textOf, startEntries, setting, wholeLines, Entry.text]

theorem textOf_restartEntries :
    textOf restartEntries = "Restart=on-failure\nRestartSec=5s\n".toList := by
  simp [textOf, restartEntries, setting, wholeLines, Entry.text]

set_option maxRecDepth 2000 in
theorem textOf_hardeningEntries (paths : AppPaths) :
    textOf (hardeningEntries paths) =
      "NoNewPrivileges=true\n".toList ++ "PrivateTmp=true\n".toList ++
      "ProtectSystem=strict\n".toList ++ "ProtectHome=read-only\n".toList ++
      ("ReadWritePaths=".toList ++ shellQuotePath paths.dataDir ++ " ".toList ++
        shellQuotePath paths.logDir ++ " ".toList ++ shellQuotePath paths.runtimeDir ++
        "\n".toList) ++
      "ProtectKernelTunables=true\n".toList ++ "ProtectKernelModules=true\n".toList ++
      "ProtectControlGroups=true\n".toList ++ "RestrictSUIDSGID=true\n".toList ++
      "RestrictNamespaces=true\n".toList ++ "LockPersonality=true\n".toList ++
      "MemoryDenyWriteExecute=false\n".toList ++
      "SystemCallFilter=@system-service\n".toList ++
      "SystemCallFilter=~@privileged @resources\n".toList := by
  simp [textOf, hardeningEntries, setting, wholeLines, Entry.text]

theorem textOf_installEntries :
    textOf installEntries = "\n[Install]\n".toList ++ "WantedBy=multi-user.target\n".toList := by
  simp [textOf, installEntries, setting, wholeLines, Entry.text]

/-- The unit is written line by line as its template has it. -/
theorem renderSystemdUnit_eq (spec : ServiceSpec) (paths : AppPaths) (userVariable : Option Text) :
    renderSystemdUnit spec paths userVariable = textOf (unitTemplate spec paths userVariable) := by
  have huser : "User=".toList ++ spec.unitUser userVariable ++ "\n".toList =
      textOf [setting "User" (spec.unitUser userVariable)] := by
    rw [textOf_setting]
    simp
  unfold renderSystemdUnit unitTemplate
  rw [textOf_append, textOf_append, textOf_append, textOf_append, textOf_append, textOf_ite,
    textOf_ite, textOf_unitEntries, textOf_startEntries, textOf_restartEntries,
    textOf_hardeningEntries, textOf_installEntries, ← huser]
  simp only [List.append_assoc]

end Template

end RemoteDesktopTool
