import LearningProjects.Machine
import LearningProjects.RunLoop.TaskQueue
import LearningProjects.RunLoop.DeferredCells
import LearningProjects.GCD.ProgressSource
import LearningProjects.GCD.TicketSeller
import LearningProjects.Text.Lines
import LearningProjects.Text.Multipart
import LearningProjects.URLSession.FormBody
import LearningProjects.URLSession.FormFraming
import LearningProjects.Fallible
import LearningProjects.Slices
import LearningProjects.URLSession.ClipFile
import LearningProjects.URLSession.ResumeDownload
import LearningProjects.Runtime.DictModel
import LearningProjects.Runtime.DictModelSpec
import LearningProjects.Runtime.Archive
import LearningProjects.CoreAnimation.DirtyRect
import LearningProjects.QuickUI.PopController
import LearningProjects.RunLoop.SourceRegistry
import LearningProjects.CoreAnimation.CellImages
import LearningProjects.CoreAnimation.ImageCache
import LearningProjects.Runtime.DictionaryFields
import LearningProjects.SignInWithApple.KeychainItem
import LearningProjects.URLSession.AssetExport
import LearningProjects.URLSession.DownloadStore
import LearningProjects.Runtime.Subclassing
import LearningProjects.RunLoop.FrameCounter
import LearningProjects.CoreAnimation.TimerAnimation
import LearningProjects.Calendar
import LearningProjects.ModalView.TabTransition
import LearningProjects.QuickUI.DateEx
import LearningProjects.QuickUI.AuthcodeView
import LearningProjects.QuickUI.Picker
import LearningProjects.QuickUI.PickerSelection
import LearningProjects.QuickUI.PickerSafety
import LearningProjects.ObjC.MethodCache
import LearningProjects.ExceptionDeal.Swizzling
import LearningProjects.ExceptionDeal.AvoidCrash
import LearningProjects.ExceptionDeal.NoneSelector
import LearningProjects.ObjC.WeakReference
import LearningProjects.Dispatch
import LearningProjects.GCD.AppendArr
import LearningProjects.GCD.SyncTasks
import LearningProjects.GCD.WhileNum
import LearningProjects.ObjC.RetainCount
import LearningProjects.ObjC.Synchronized
