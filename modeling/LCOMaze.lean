import LCOMaze.Controllers.Buffers
import LCOMaze.Controllers.Devices
import LCOMaze.Controllers.Graphics
import LCOMaze.Controllers.KbcCommands
import LCOMaze.Controllers.MousePackets
import LCOMaze.Controllers.RotatedSprites
import LCOMaze.Controllers.RtcReads
import LCOMaze.Controllers.ScaledSprites
import LCOMaze.Controllers.SendInt
import LCOMaze.Controllers.Serial
import LCOMaze.Controllers.SerialFailures
import LCOMaze.Controllers.Setup
import LCOMaze.Controllers.Sprites
import LCOMaze.Controllers.SystemCalls
import LCOMaze.Controllers.Text
import LCOMaze.Controllers.Timer
import LCOMaze.DataStructures.DequeRefinement
import LCOMaze.DataStructures.LinkedList
import LCOMaze.DataStructures.ListRefinement
import LCOMaze.DataStructures.Queue
import LCOMaze.DataStructures.QueueRefinement
import LCOMaze.DataStructures.Stack
import LCOMaze.DataStructures.StackNodes
import LCOMaze.Foundations.CountedLoop
import LCOMaze.Foundations.DepthFirstSearch
import LCOMaze.Foundations.Duplex
import LCOMaze.Foundations.FloatingPoint
import LCOMaze.Foundations.Framing
import LCOMaze.Foundations.GrowingTree
import LCOMaze.Foundations.Interaction
import LCOMaze.Foundations.NearestEven
import LCOMaze.Foundations.NodeHeap
import LCOMaze.Foundations.Raster
import LCOMaze.Foundations.Refinement
import LCOMaze.Foundations.ShortestPath
import LCOMaze.Foundations.Simulation
import LCOMaze.Foundations.Trace
import LCOMaze.Foundations.WhileLoop
import LCOMaze.Game.DrawMaze
import LCOMaze.Game.DrawSolution
import LCOMaze.Game.ElapsedTime
import LCOMaze.Game.FieldOfView
import LCOMaze.Game.GenerateMaze
import LCOMaze.Game.GenerationLength
import LCOMaze.Game.GenerationMemory
import LCOMaze.Game.GetSolution
import LCOMaze.Game.GoalCorner
import LCOMaze.Game.Maze
import LCOMaze.Game.MazeBuffer
import LCOMaze.Game.MazePicture
import LCOMaze.Game.PerfectMaze
import LCOMaze.Game.Player
import LCOMaze.Game.SearchTrees
import LCOMaze.Game.Session
import LCOMaze.Game.SolutionCorrect
import LCOMaze.Game.SolutionKeys
import LCOMaze.Game.SolverTermination
import LCOMaze.Game.Unsolvable
import LCOMaze.Game.WallSafety
import LCOMaze.Game.Winnable
import LCOMaze.Match.FinishedGames
import LCOMaze.Match.Handshake
import LCOMaze.Match.Losers
import LCOMaze.Match.TwoMachines
import LCOMaze.Match.WillingPeer
import LCOMaze.Match.Winners
import LCOMaze.Proj.Batching
import LCOMaze.Proj.CursorBounds
import LCOMaze.Proj.CursorMoves
import LCOMaze.Proj.FailedKeys
import LCOMaze.Proj.FailedMouseReads
import LCOMaze.Proj.Frames
import LCOMaze.Proj.GameClock
import LCOMaze.Proj.Isolation
import LCOMaze.Proj.Lifecycle
import LCOMaze.Proj.Listener
import LCOMaze.Proj.MainLoop
import LCOMaze.Proj.Menu
import LCOMaze.Proj.MouseStream
import LCOMaze.Proj.Notifications
import LCOMaze.Proj.Pictures
import LCOMaze.Proj.Replay
import LCOMaze.Proj.StartCell
import LCOMaze.Proj.Transmission
