import InteropJs.Lib.Requests
import InteropJs.Lib.Triple
import InteropJs.Lib.Utf
import InteropJs.Lib.Finalizer
import InteropJs.Lib.Limbs
import InteropJs.Engine.Value
import InteropJs.Engine.Utf8
import InteropJs.Engine.Memory
import InteropJs.Engine.StringBuffer
import InteropJs.Engine.Text
import InteropJs.Engine.BigInt
import InteropJs.Engine.FromDigits
import InteropJs.Engine.ToDigits
import InteropJs.Engine.BigIntLiteral
import InteropJs.Engine.NumString
import InteropJs.Engine.Atoms
import InteropJs.Engine.World
import InteropJs.Engine.Recorder
import InteropJs.Bridge.Functions
import InteropJs.Bridge.Local
import InteropJs.Bridge.Spec
import InteropJs.Bridge.Exports
import InteropJs.Bridge.Values
import InteropJs.Bridge.Call
import InteropJs.Bridge.Fresh
import InteropJs.Bridge.Lifetime
import InteropJs.Bridge.Runs
import InteropJs.Bridge.Effect
import InteropJs.Bridge.Exceptions
import InteropJs.Bridge.Failure
import InteropJs.Bridge.Errors
import InteropJs.Bridge.Isolation
import InteropJs.Bridge.Mirror
import InteropJs.Bridge.Observers
import InteropJs.Bridge.Snapshot
import InteropJs.Bridge.Modules
import InteropJs.Bridge.Visits
import InteropJs.Cangjie.Prog
import InteropJs.Cangjie.Value
import InteropJs.Cangjie.Runtime
import InteropJs.Cangjie.Paths
import InteropJs.Cangjie.Spec
import InteropJs.Cangjie.Finalizer
import InteropJs.Cangjie.Schedules
import InteropJs.Cangjie.Ownership
import InteropJs.Cangjie.FunctionCall
import InteropJs.Cangjie.Module
import InteropJs.Cangjie.Marshal
import InteropJs.Cangjie.Strings
import InteropJs.Cangjie.Integers
import InteropJs.Cangjie.EngineIntegers
import InteropJs.Cangjie.History
import InteropJs.Cangjie.Independence
import InteropJs.Cangjie.Property
import InteropJs.Cangjie.Methods
import InteropJs.Cangjie.NamedStore
import InteropJs.Cangjie.Neighbours
import InteropJs.Cangjie.Arrays
import InteropJs.Cangjie.Elements
import InteropJs.Cangjie.Dispatch
import InteropJs.Cangjie.Results
import InteropJs.Cangjie.Rejections
import InteropJs.Cangjie.Sessions
import InteropJs.Cangjie.Imports
import InteropJs.Cangjie.Weaving
import InteropJs.Cangjie.Texts
import InteropJs.Cangjie.Direct
import InteropJs.Cangjie.Refinement
import InteropJs.Cangjie.Programs
