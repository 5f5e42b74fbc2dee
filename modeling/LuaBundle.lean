import LuaBundle.CommandLine.Outcome
import LuaBundle.FileSystem.Store
import LuaBundle.Main
import LuaBundle.Proofs.Path.Normal
import LuaBundle.Proofs.Project.Requires
import LuaBundle.Proofs.Project.Visits
import LuaBundle.Proofs.Project.FinishOrder
import LuaBundle.Proofs.Path.Places
import LuaBundle.Proofs.RequireGraph.Edges
import LuaBundle.Proofs.RequireGraph.Cycles
import LuaBundle.Proofs.RequireGraph.Orders
import LuaBundle.Proofs.Project.Members
import LuaBundle.Proofs.Project.LoadOrder
import LuaBundle.Proofs.Project.Discovery
import LuaBundle.Proofs.Bundle.Statements
import LuaBundle.Proofs.Bundle.Execution
import LuaBundle.Proofs.Project.Cache
import LuaBundle.Proofs.Lua.Argument
import LuaBundle.Proofs.Lua.Sites
import LuaBundle.Proofs.Lua.Scanner
import LuaBundle.Proofs.Project.Names
import LuaBundle.Proofs.Lua.Quote
import LuaBundle.Proofs.Bundle.Keys
import LuaBundle.Proofs.Bundle.Registration
import LuaBundle.Proofs.Project.DepthFirst
import LuaBundle.Proofs.Project.Failure
import LuaBundle.Proofs.Path.Children
import LuaBundle.Proofs.Path.Below
import LuaBundle.Proofs.FileSystem.Store
import LuaBundle.Proofs.Project.Reads
import LuaBundle.Proofs.Project.Confinement
import LuaBundle.Proofs.Project.Circles
import LuaBundle.Proofs.FileSystem.Disk
import LuaBundle.Proofs.CommandLine.ProjectSettings
import LuaBundle.Proofs.Project.Results
import LuaBundle.Proofs.FileSystem.Writing
import LuaBundle.Proofs.CommandLine.Effects
import LuaBundle.Proofs.Toml.Tables
import LuaBundle.Proofs.Toml.Documents
import LuaBundle.Proofs.Settings.Layers
import LuaBundle.Proofs.Path.Relocation
import LuaBundle.Proofs.RequireGraph.Renaming
import LuaBundle.Proofs.FileSystem.Relocation
import LuaBundle.Proofs.Project.Renaming
import LuaBundle.Proofs.Bundle.Renaming
import LuaBundle.Proofs.Project.Relocation
import LuaBundle.Proofs.RequireGraph.Arrows
import LuaBundle.Proofs.Lua.Digits
import LuaBundle.Proofs.Lua.Escapes
import LuaBundle.Proofs.Lua.Literals
import LuaBundle.Proofs.Lua.Continuation
import LuaBundle.Proofs.Path.Canonical
import LuaBundle.Proofs.Project.Aliases
import LuaBundle.Proofs.FileSystem.Inserts
import LuaBundle.Proofs.Lua.WrapperNames
import LuaBundle.Proofs.Settings.UnknownKeys
import LuaBundle.Proofs.RequireGraph.Listing
import LuaBundle.Proofs.Project.Machine
import LuaBundle.Proofs.Lua.Lines
import LuaBundle.Proofs.Bundle.SharedWrappers
import LuaBundle.Proofs.Project.FailedVisits
import LuaBundle.Proofs.Lua.Bytes
import LuaBundle.Proofs.Lua.ByteEscapes
import LuaBundle.Proofs.Lua.ByteCalls
import LuaBundle.Proofs.Lua.ByteScanner
