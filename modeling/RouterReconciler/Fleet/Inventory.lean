import RouterReconciler.Local.Document
import RouterReconciler.Local.Environment
import RouterReconciler.Remote.Target
import RouterReconciler.TaskFile.Entry

/-!
The inventory: the devices that are known, in order, and settings for those that do not say
otherwise. Every device has a host and a name of its own.
-/
namespace RouterReconciler

structure DeviceDefaults where
  port : Option Nat
  user : Option String
  identityFile : Option String
  timeoutSeconds : Option Nat
  deriving DecidableEq

structure DeviceEntry where
  name : String
  host : String
  port : Option Nat
  user : Option String
  identityFile : Option String
  romonHostId : Option String
  os : Option Generation
  timeoutSeconds : Option Nat
  deriving DecidableEq

structure Inventory where
  defaults : DeviceDefaults
  devices : List DeviceEntry

namespace DeviceDefaults

def none : DeviceDefaults := ⟨.none,.none,.none,.none⟩

def keys : List String := ["port","user","identity_file","timeout_secs"]

def ofJson? (j : Json) : Option DeviceDefaults := do
  let members ← Json.members? keys j
  let port ← Json.field? members "port" (Json.natural? Text.maxWord16)
  let user ← Json.field? members "user" Json.text?
  let identityFile ← Json.field? members "identity_file" Json.text?
  let timeout ← Json.field? members "timeout_secs" (Json.natural? Text.maxWord64)
  some ⟨port,user,identityFile,timeout⟩

end DeviceDefaults

namespace DeviceEntry

def keys : List String :=
  ["name","host","port","user","identity_file","romon_host_id","os","timeout_secs"]

def ofJson? (addsNothing : Json → Bool) (j : Json) : Option DeviceEntry := do
  let members ← Json.members? keys j
  let own ← DeviceDefaults.ofJson? (.table members)
  let name ← Json.required? members "name" Json.text?
  let host ← Json.required? members "host" Json.text?
  let romonHostId ← Json.field? members "romon_host_id" Json.text?
  let os ← Json.field? members "os" (TaskFile.generationOfJson? addsNothing)
  some ⟨name,host,own.port,own.user,own.identityFile,romonHostId,os,own.timeoutSeconds⟩

def target (env : Environment) (defaults : DeviceDefaults) (d : DeviceEntry) : Target :=
  { host := d.host
    port := d.port.orElse fun _ => defaults.port
    user := d.user.orElse fun _ => defaults.user
    identityFile := (d.identityFile.orElse fun _ => defaults.identityFile).map env.expand
    romonHostId := d.romonHostId }

def timeout (defaults : DeviceDefaults) (d : DeviceEntry) : Nat :=
  (d.timeoutSeconds.orElse fun _ => defaults.timeoutSeconds).getD 30

end DeviceEntry

namespace Inventory

def part : Json.Part :=
  .members [("defaults",.named DeviceDefaults.keys),("device",.each (.named DeviceEntry.keys))]

def ofJson? (format : DocumentFormat) (j : Json) : Option Inventory := do
  let members ← Json.members? ["defaults","device"] j
  let defaults ← Json.optional? members "defaults" DeviceDefaults.none DeviceDefaults.ofJson?
  let entry := DeviceEntry.ofJson? format.addsNothing
  let devices ← Json.optional? members "device" [] (Json.listOf? entry)
  some ⟨defaults,devices⟩

def fault? (seen : List String) : List DeviceEntry → Option String
  | [] => none
  | d :: rest =>
    if (Text.trim d.name).isEmpty then some ("Device with host '" ++ d.host ++ "' has no name")
    else if (Text.trim d.host).isEmpty then some ("Device '" ++ d.name ++ "' has no host")
    else if seen.contains d.name then some ("Device '" ++ d.name ++ "' is listed twice")
    else fault? (d.name :: seen) rest

def load (files : Files) (path : String) : Except Failure Inventory := do
  let inventory ← files.load path part ofJson?
  match fault? [] inventory.devices with
  | none => .ok inventory
  | some fault => .error ((Failure.of fault).within ("Invalid inventory " ++ path))

def loadDefault (env : Environment) (files : Files) (given : Option String) :
    Except Failure Inventory :=
  match given.orElse (fun _ => env.inventoryPath?) with
  | none => .error (.of "Could not determine home directory")
  | some path =>
    if files.exists? path then load files path
    else
      .error (.of ("No inventory at " ++ path ++ " (set " ++ Environment.configVariable ++
        " or pass --inventory)"))

def named? (inventory : Inventory) (name : String) : Except Failure DeviceEntry :=
  match inventory.devices.find? (fun d => d.name == name) with
  | some d => .ok d
  | none => .error (.of ("Unknown device '" ++ name ++ "'"))

def noDevices : Failure := .of "Inventory has no devices"

def select (inventory : Inventory) : (names : List String) → Except Failure (List DeviceEntry)
  | [] => if inventory.devices.isEmpty then .error noDevices else .ok inventory.devices
  | names => names.mapM inventory.named?

def single (inventory : Inventory) : (name : Option String) → Except Failure DeviceEntry
  | some name => inventory.named? name
  | none =>
    match inventory.devices with
    | [d] => .ok d
    | [] => .error noDevices
    | _ => .error (.of "Inventory has several devices; pass --device")

end Inventory
end RouterReconciler
